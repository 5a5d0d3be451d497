import Armator.Arch.Comparison
import Armator.Instr.Condition

set_option autoImplicit false

/-! # The order law of the conditions

After a comparison every condition but LS is tested as the architecture asks. LS asks for a
borrow and for equal words, which exclude each other. Where a test fails, the value of
`ConditionPassed` is indeterminate.
-/

namespace Armator

open Arch

/-- Whatever is indeterminate, `ConditionPassed` says whether the compared words are in the
relation of the condition. -/
def OrderLaw (k : Condition) (a b : BitVec 32) : Prop :=
  ∀ (u : Locals) (cond : BitVec 8) (c : ArmCore), Condition.ofField cond.toNat = some k →
    Flags.ofCpsr c.cpsr = compared a b →
      ((conditionPassed u cond c).value ≠ 0 ↔ k.relates a b)

/-- A borrow excludes equality. -/
theorem tested_LS_compared (a b : BitVec 32) : tested (compared a b) .LS = false := by
  have hz := compared_z a b
  have hc := compared_c a b
  rw [Bool.eq_false_iff]
  intro htest
  have hboth : (compared a b).c = false ∧ (compared a b).z = true := by
    simpa [tested] using htest
  rw [hz] at hboth
  obtain ⟨hborrow, rfl⟩ := hboth
  rw [hc.mpr (Nat.le_refl _)] at hborrow
  cases hborrow

theorem tested_compared {k : Condition} (hk : k ≠ .LS) (a b : BitVec 32) :
    tested (compared a b) k = true ↔ k.relates a b := by
  rw [← holds_compared]
  cases k <;> first | exact Iff.rfl | exact absurd rfl hk

/-- The CPSR with given flags and all other bits clear. -/
def cpsrOf (f : Flags) : BitVec 32 :=
  BitVec.ofNat 32 (f.n.toNat * 2 ^ 31 + f.z.toNat * 2 ^ 30 + f.c.toNat * 2 ^ 29 +
    f.v.toNat * 2 ^ 28)

theorem ofCpsr_cpsrOf (f : Flags) : Flags.ofCpsr (cpsrOf f) = f := by
  obtain ⟨n, z, c, v⟩ := f
  cases n <;> cases z <;> cases c <;> cases v <;> decide

/-- Every condition has an encoding. -/
theorem exists_ofField (k : Condition) :
    ∃ cond : BitVec 8, Condition.ofField cond.toNat = some k := by
  cases k with
  | EQ => exact ⟨0, rfl⟩
  | NE => exact ⟨1, rfl⟩
  | CS => exact ⟨2, rfl⟩
  | CC => exact ⟨3, rfl⟩
  | MI => exact ⟨4, rfl⟩
  | PL => exact ⟨5, rfl⟩
  | VS => exact ⟨6, rfl⟩
  | VC => exact ⟨7, rfl⟩
  | HI => exact ⟨8, rfl⟩
  | LS => exact ⟨9, rfl⟩
  | GE => exact ⟨10, rfl⟩
  | LT => exact ⟨11, rfl⟩
  | GT => exact ⟨12, rfl⟩
  | LE => exact ⟨13, rfl⟩

/-- The value for a condition that tests the flags. -/
theorem conditionPassed_value {cond : BitVec 8} {k : Condition} (u : Locals) (c : ArmCore)
    (hk : Condition.ofField cond.toNat = some k) :
    (conditionPassed u cond c).value
      = if tested (Flags.ofCpsr c.cpsr) k then 1 else u.conditionPassed := by
  rw [(conditionPassed_runs u cond c).value, conditionValue, hk]

/-- **The order law holds exactly where the condition is not LS and is true.** -/
theorem orderLaw_iff (k : Condition) (a b : BitVec 32) :
    OrderLaw k a b ↔ k ≠ .LS ∧ k.relates a b := by
  constructor
  · intro hlaw
    obtain ⟨cond, hcond⟩ := exists_ofField k
    let c : ArmCore :=
      { cycleCount := 0, reg := ⟨fun _ => cpsrOf (compared a b)⟩, mem := memoryCreate none 0 0 }
    have hflags : Flags.ofCpsr c.cpsr = compared a b := ofCpsr_cpsrOf _
    -- a failed test answers as the indeterminate value says, so the law asks for its success
    have htest : tested (compared a b) k = true := by
      by_contra hfail
      have hzero := hlaw ⟨0, 0, 0, 0, 0, 0⟩ cond c hcond hflags
      have hone := hlaw ⟨0, 0, 1, 0, 0, 0⟩ cond c hcond hflags
      rw [conditionPassed_value _ c hcond, hflags, if_neg hfail] at hzero hone
      exact hzero.mpr (hone.mp Int.one_ne_zero) rfl
    have hk : k ≠ .LS := by
      rintro rfl
      rw [tested_LS_compared] at htest
      cases htest
    exact ⟨hk, (tested_compared hk a b).mp htest⟩
  · rintro ⟨hk, hrelates⟩ u cond c hcond hflags
    rw [conditionPassed_value u c hcond, hflags, if_pos ((tested_compared hk a b).mpr hrelates)]
    exact iff_of_true Int.one_ne_zero hrelates

/-- LS after the comparison of 1 with 1. -/
theorem not_orderLaw_ls : ¬ OrderLaw .LS 1 1 := by
  intro hlaw
  have hvalue := hlaw ⟨0, 0, 0, 0, 0, 0⟩ 9
    { cycleCount := 0, reg := ⟨fun _ => 0x60000000⟩, mem := memoryCreate none 0 0 } rfl
    (by decide)
  exact absurd (hvalue.mpr (Nat.le_refl _)) (by decide)

end Armator
