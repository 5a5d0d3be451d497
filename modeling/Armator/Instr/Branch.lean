import Armator.Basic.Core

set_option autoImplicit false

/-! # Branches and other instructions (`arm_branch_other.c`) -/

namespace Armator

open Logged

/-- The 24-bit offset sign-extended to 30 bits. -/
def extend30 (ins : BitVec 32) : BitVec 32 :=
  let x := getBits ins 23 0
  if getBit ins 23 = 0 then setBits x 30 24 0b000000 else setBits x 30 24 0b111111

def armBranch (ins : BitVec 32) : ArmM Int := do
  if getBit ins 24 = 0 then -- B
    let x := extend30 ins <<< 2
    armWriteRegister 15 ((← armReadRegister 15) + x)
  else -- BL
    let adr ← armReadRegister 15
    armWriteRegister 14 adr
    let x := extend30 ins <<< 2
    armWriteRegister 15 ((← armReadRegister 15) + x)
  return 0

theorem AccessProperty.armBranch {P : {α : Type} → ArmM α → Prop} (hP : AccessProperty P)
    (ins : BitVec 32) : P (Armator.armBranch ins) := by
  refine hP.ite ?_ ?_
  · exact hP.bind (hP.readRegister 15) fun _ => hP.bind (hP.writeRegister 15 _) fun _ => hP.pure 0
  · exact hP.bind (hP.readRegister 15) fun _ => hP.bind (hP.writeRegister 14 _) fun _ =>
      hP.bind (hP.readRegister 15) fun _ => hP.bind (hP.writeRegister 15 _) fun _ => hP.pure 0

/-- How a call of the C program ends: with a value, or with `exit`. -/
inductive Ending
  | returned (value : Int)
  | exited (code : Int)
deriving DecidableEq

def armCoprocessorOthersSwi (ins : BitVec 32) : Ending :=
  if getBit ins 24 ≠ 0 then
    if ins &&& 0xFFFFFF = 0x123456 then .exited 0 else .returned SOFTWARE_INTERRUPT
  else
    .returned UNDEFINED_INSTRUCTION

def armMiscellaneous (_ins : BitVec 32) : Int := UNDEFINED_INSTRUCTION

end Armator
