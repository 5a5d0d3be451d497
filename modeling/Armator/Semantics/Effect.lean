import Armator.Semantics.Frame

set_option autoImplicit false

/-! # Writes without effect

When does a word change nothing? Exactly when everything it writes is there already
(`executedWrites_idle`). The registers that count are a parameter.
-/

namespace Armator

open Arch

/-- The states agree on the memory and on the registers in `observed`. -/
def AgreeOn (observed : Nat → Prop) (c c' : ArmCore) : Prop :=
  (∀ r, observed r → c'.reg.rData r = c.reg.rData r) ∧ c'.mem = c.mem

/-- What the write stores is there already, or is not observed. -/
def Write.Idle (observed : Nat → Prop) (c : ArmCore) : Write → Prop
  | .reg r value => observed r → c.reg.rData r = value
  | .word address value => (memoryWriteWord c.mem address value).2 = c.mem
  | .byte address value => (memoryWriteByte c.mem address value).2 = c.mem

variable {observed : Nat → Prop} {c : ArmCore}

theorem agreeOn_setReg {r : Nat} {value : BitVec 32} :
    AgreeOn observed c (c.setReg r value) ↔ (observed r → c.reg.rData r = value) := by
  constructor
  · intro hagree hr
    rw [← hagree.1 r hr, c.setReg_same]
  · intro hidle
    refine ⟨fun r' hr' => ?_, rfl⟩
    by_cases heq : r' = r
    · subst heq
      rw [c.setReg_same, hidle hr']
    · exact c.setReg_of_ne heq value

theorem Write.idle_iff (x : Write) : AgreeOn observed c (x.apply c) ↔ x.Idle observed c := by
  cases x with
  | reg r value => exact agreeOn_setReg
  | word address value => exact ⟨fun hagree => hagree.2, fun hidle => ⟨fun _ _ => rfl, hidle⟩⟩
  | byte address value => exact ⟨fun hagree => hagree.2, fun hidle => ⟨fun _ _ => rfl, hidle⟩⟩

theorem agreeOn_setReg_setReg {r s : Nat} (hrs : r ≠ s) {a b : BitVec 32} :
    AgreeOn observed c ((c.setReg r a).setReg s b) ↔
      (observed r → c.reg.rData r = a) ∧ (observed s → c.reg.rData s = b) := by
  constructor
  · intro hagree
    refine ⟨fun hr => ?_, fun hs => ?_⟩
    · rw [← hagree.1 r hr, ArmCore.setReg_of_ne _ hrs, c.setReg_same]
    · rw [← hagree.1 s hs, ArmCore.setReg_same]
  · rintro ⟨ha, hb⟩
    refine ⟨fun r' hr' => ?_, rfl⟩
    by_cases hs : r' = s
    · subst hs
      rw [ArmCore.setReg_same, hb hr']
    · rw [ArmCore.setReg_of_ne _ hs]
      exact (agreeOn_setReg.mpr ha).1 r' hr'

variable (h : Host) (u : Locals) (w : BitVec 32)

/-- A word writes nothing, one thing, or the two registers of BL. -/
theorem executedWrites_shape (c : ArmCore) :
    executedWrites h u w c = [] ∨ (∃ x, executedWrites h u w c = [x]) ∨
      ∃ a b, executedWrites h u w c = [.reg 14 a, .reg 15 b] := by
  rw [executedWrites_of_class]
  split
  · unfold dataProcessingWrites
    cases aluResult (opcode w) (c.regValue (rn w)) (operandValue h u w c) (getBit c.cpsr C) with
    | none => exact .inl rfl
    | some value => exact .inr (.inl ⟨_, rfl⟩)
  · unfold loadStoreWrites
    right; left
    split
    · exact ⟨_, rfl⟩
    · split
      · exact ⟨_, rfl⟩
      · split <;> exact ⟨_, rfl⟩
  · unfold branchWrites
    split
    · exact .inr (.inl ⟨_, rfl⟩)
    · exact .inr (.inr ⟨_, _, rfl⟩)
  · exact .inl rfl

/-- **A word changes nothing exactly when all its writes are idle.** -/
theorem executedWrites_idle (c : ArmCore) :
    AgreeOn observed c (applyWrites (executedWrites h u w c) c) ↔
      ∀ x ∈ executedWrites h u w c, x.Idle observed c := by
  rcases executedWrites_shape h u w c with hnil | ⟨x, hone⟩ | ⟨a, b, htwo⟩
  · rw [hnil]
    exact iff_of_true ⟨fun _ _ => rfl, rfl⟩ (fun _ hx => by cases hx)
  · rw [hone, List.forall_mem_singleton]
    exact x.idle_iff
  · -- BL: the two registers differ, so neither write hides the other
    rw [htwo, List.forall_mem_cons, List.forall_mem_singleton]
    exact agreeOn_setReg_setReg (by decide)

/-- Agreement on everything is equality, for states with the same cycle count. -/
theorem agreeOn_true_iff {c' : ArmCore} (hcycle : c'.cycleCount = c.cycleCount) :
    AgreeOn (fun _ => True) c c' ↔ c' = c := by
  constructor
  · rintro ⟨hreg, hmem⟩
    have hdata : c'.reg.rData = c.reg.rData := funext fun r => hreg r trivial
    cases c with
    | mk cycle reg mem =>
        cases c' with
        | mk cycle' reg' mem' =>
            cases reg
            cases reg'
            cases hcycle
            cases hmem
            cases hdata
            rfl
  · rintro rfl
    exact ⟨fun _ _ => rfl, rfl⟩

theorem applyWrites_cycleCount (ws : List Write) (c : ArmCore) :
    (applyWrites ws c).cycleCount = c.cycleCount :=
  applyWrites_keeps (fun c => c.cycleCount) (fun x _ c => x.apply_cycleCount c) c

theorem executedWrites_eq_self (c : ArmCore) :
    applyWrites (executedWrites h u w c) c = c ↔
      ∀ x ∈ executedWrites h u w c, x.Idle (fun _ => True) c := by
  rw [← agreeOn_true_iff (applyWrites_cycleCount _ c), executedWrites_idle]

end Armator
