import Armator.Basic.Core
import Armator.Arch.Condition

set_option autoImplicit false

/-! # Conditions and flag updates (`arm_instruction.c`)

`ConditionPassed` ends without a `return` when the tested condition fails, and several locals
of the instruction decoder are read before they are assigned. What such a read yields is an
input of the model, `Locals`.
-/

namespace Armator

open Logged Arch

/-- The indeterminate values one call of `arm_step` meets. -/
structure Locals where
  /-- `bits4_11` of `arm_execute_instruction` -/
  bits4_11 : BitVec 32
  /-- `shift_imm` of `shiftedRegisterOperand` -/
  shiftImm : BitVec 32
  /-- what the caller of `ConditionPassed` sees when it ends without a `return` -/
  conditionPassed : Int
  /-- `instr` of `arm_execute_instruction` -/
  instr : BitVec 32
  /-- the `uint32_t` output variables of `loadStoreByteOrWord` -/
  word : BitVec 32
  /-- the `uint8_t` output variables of `loadStoreByteOrWord` -/
  byte : BitVec 8

/-! ## `ConditionPassed` -/

/-- A `break` leaves the `switch`; the `return 0` of the source stands inside it, after the
`default` case, and is never reached. -/
def conditionPassed (u : Locals) (cond : BitVec 8) : ArmM Int := do
  let flag ← armReadCpsr
  match cond.toNat with
  | 0b0000 => if getBit flag 30 = 1 then return 1
  | 0b0001 => if getBit flag 30 = 0 then return 1
  | 0b0010 => if getBit flag 29 = 1 then return 1
  | 0b0011 => if getBit flag 29 = 0 then return 1
  | 0b0100 => if getBit flag 31 = 1 then return 1
  | 0b0101 => if getBit flag 31 = 0 then return 1
  | 0b0110 => if getBit flag 28 = 1 then return 1
  | 0b0111 => if getBit flag 28 = 0 then return 1
  | 0b1000 => if getBit flag 29 = 1 ∧ getBit flag 30 = 0 then return 1
  | 0b1001 => if getBit flag 29 = 0 ∧ getBit flag 30 = 1 then return 1
  | 0b1010 => if getBit flag 31 = getBit flag 28 then return 1
  | 0b1011 => if getBit flag 31 ≠ getBit flag 28 then return 1
  | 0b1100 => if getBit flag 30 = 0 ∧ getBit flag 31 = getBit flag 28 then return 1
  | 0b1101 => if getBit flag 30 = 1 ∨ getBit flag 31 ≠ getBit flag 28 then return 1
  | _ => return -1
  -- control reaches the end of the function
  return u.conditionPassed

/-! ## Flag updates

The expansion of `set_bit(flag, Z)` is an expression whose value is dropped: the CPSR is read
and never written back. -/

/-- The body of the four `update_Flag_` functions, for the flag at position `i`. -/
def updateFlagAt (i : Nat) (indice : BitVec 32) : ArmM Unit := do
  let flag ← armReadCpsr
  let _ := if indice = 1 then setBit flag i else clrBit flag i
  return ()

def updateFlagZ (indice : BitVec 32) : ArmM Unit := updateFlagAt Z indice
def updateFlagN (indice : BitVec 32) : ArmM Unit := updateFlagAt N indice
def updateFlagC (indice : BitVec 32) : ArmM Unit := updateFlagAt C indice
def updateFlagV (indice : BitVec 32) : ArmM Unit := updateFlagAt V indice

/-- The test for the S bit looks at bit 20 of the CPSR. -/
def updateFlag (h : Host) (operandsResult : BitVec 64) : ArmM Unit := do
  let flag ← armReadCpsr
  if getBit flag 20 = 1 then
    if operandsResult = 0 then
      updateFlagZ 1
    if getBit operandsResult 31 = 1 then
      updateFlagN 1
    if getBits63To32 h operandsResult ≠ 0 then
      updateFlagV 1
      updateFlagC 1

/-! ## The value of `ConditionPassed` -/

/-- The test `ConditionPassed` makes for a condition. It is the architecture's, except that
LS asks for C clear *and* Z set. -/
def tested (f : Flags) : Condition → Bool
  | .LS => !f.c && f.z
  | k => k.holds f

/-- The value of `ConditionPassed`. -/
def conditionValue (u : Locals) (cond : BitVec 8) (cpsr : BitVec 32) : Int :=
  match Condition.ofField cond.toNat with
  | none => -1
  | some k => if tested (Flags.ofCpsr cpsr) k then 1 else u.conditionPassed

/-- One case of the `switch`: `if (P) return 1; break;`. -/
theorem returnOneIf_runs {P : Prop} [Decidable P] {b : Bool} (h : P ↔ b = true) (u : Locals)
    (c : ArmCore) :
    Runs visible (if P then return 1 else return u.conditionPassed : ArmM Int) c
      (if b then 1 else u.conditionPassed) c [] := by
  rw [← if_congr h rfl rfl]
  exact Runs.ite (fun hp => by rw [if_pos hp]; exact Runs.pure _ _ c)
    (fun hp => by rw [if_neg hp]; exact Runs.pure _ _ c)

theorem conditionPassed_runs (u : Locals) (cond : BitVec 8) (c : ArmCore) :
    Runs visible (conditionPassed u cond) c (conditionValue u cond c.cpsr) c [] := by
  refine (armReadCpsr_runs c).quietBind ?_
  unfold conditionValue
  generalize cond.toNat = k
  -- grouped by what the source compares: one flag set, one flag clear, two flags
  match k with
  | 0 | 2 | 4 | 6 =>
      refine returnOneIf_runs ?_ u c
      rw [getBit_eq_one]
      simp [tested, Condition.holds, Flags.ofCpsr]
  | 1 | 3 | 5 | 7 =>
      refine returnOneIf_runs ?_ u c
      rw [getBit_eq_zero]
      simp [tested, Condition.holds, Flags.ofCpsr]
  | 8 =>
      refine returnOneIf_runs ?_ u c
      rw [getBit_eq_one, getBit_eq_zero]
      simp [tested, Condition.holds, Flags.ofCpsr]
  | 9 =>
      refine returnOneIf_runs ?_ u c
      rw [getBit_eq_zero, getBit_eq_one]
      simp [tested, Flags.ofCpsr]
  | 10 =>
      refine returnOneIf_runs ?_ u c
      rw [getBit_eq_getBit]
      simp [tested, Condition.holds, Flags.ofCpsr]
  | 11 =>
      refine returnOneIf_runs ?_ u c
      rw [ne_eq, getBit_eq_getBit]
      simp [tested, Condition.holds, Flags.ofCpsr]
  | 12 =>
      refine returnOneIf_runs ?_ u c
      rw [getBit_eq_zero, getBit_eq_getBit]
      simp [tested, Condition.holds, Flags.ofCpsr]
  | 13 =>
      refine returnOneIf_runs ?_ u c
      rw [getBit_eq_one, ne_eq, getBit_eq_getBit]
      simp [tested, Condition.holds, Flags.ofCpsr]
  | _ + 14 => exact Runs.pure _ _ c

/-! ## Reads alone

The test of a condition and the flag updates are made of register reads. -/

namespace ReadProperty

variable {P : {α : Type} → ArmM α → Prop} (hP : ReadProperty P)

include hP

theorem conditionPassed (u : Locals) (cond : BitVec 8) : P (Armator.conditionPassed u cond) := by
  refine hP.bind hP.readCpsr fun flag => ?_
  generalize cond.toNat = k
  match k with
  | 0 | 1 | 2 | 3 | 4 | 5 | 6 | 7 | 8 | 9 | 10 | 11 | 12 | 13 =>
      exact hP.ite (hP.pure 1) (hP.pure u.conditionPassed)
  | _ + 14 => exact hP.pure (-1)

theorem updateFlagAt (i : Nat) (indice : BitVec 32) : P (Armator.updateFlagAt i indice) :=
  hP.bind hP.readCpsr fun _ => hP.pure ()

/-- The test of bits 63 to 32, which sets V and C. -/
theorem wideFlags (h : Host) (x : BitVec 64) :
    P (if getBits63To32 h x ≠ 0 then do updateFlagV 1; updateFlagC 1 else Pure.pure ()) :=
  hP.ite (hP.bind (hP.updateFlagAt V 1) fun _ => hP.updateFlagAt C 1) (hP.pure ())

theorem updateFlag (h : Host) (operandsResult : BitVec 64) :
    P (Armator.updateFlag h operandsResult) := by
  have hneg : P (do
      if getBit operandsResult 31 = 1 then updateFlagN 1
      if getBits63To32 h operandsResult ≠ 0 then
        updateFlagV 1
        updateFlagC 1) :=
    hP.ite (hP.bind (hP.updateFlagAt N 1) fun _ => hP.wideFlags h operandsResult)
      (hP.wideFlags h operandsResult)
  exact hP.bind hP.readCpsr fun _ =>
    hP.ite (hP.ite (hP.bind (hP.updateFlagAt Z 1) fun _ => hneg) hneg) (hP.pure ())

/-- The flags of TST and TEQ. -/
theorem testFlags (z n carry : BitVec 32) :
    P (do updateFlagZ z; updateFlagN n; updateFlagC carry : ArmM Unit) :=
  hP.bind (hP.updateFlagAt Z z) fun _ => hP.bind (hP.updateFlagAt N n) fun _ =>
    hP.updateFlagAt C carry

/-- The flags of CMP and CMN. -/
theorem compareFlags (h : Host) (z n : BitVec 32) (x : BitVec 64) :
    P (do
      updateFlagZ z
      updateFlagN n
      if getBits63To32 h x ≠ 0 then
        updateFlagV 1
        updateFlagC 1 : ArmM Unit) :=
  hP.bind (hP.updateFlagAt Z z) fun _ => hP.bind (hP.updateFlagAt N n) fun _ => hP.wideFlags h x

end ReadProperty

end Armator
