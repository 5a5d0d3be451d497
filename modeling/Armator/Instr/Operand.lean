import Armator.Instr.Condition

set_option autoImplicit false

/-! # The shifter operand of data-processing instructions (`arm_instruction.c`) -/

namespace Armator

open Logged

/-- `value` shifted in the given direction, `r` or `l`. -/
def logicalShift (h : Host) (value shift : BitVec 32) (direction : Char) : BitVec 32 :=
  if direction = 'r' then cShr h value shift.toNat
  else if direction = 'l' then cShl h value shift.toNat
  else 0

/-- The operand and the carry-out stored through `shifter_carry_out`. `rs` is the *number* of
the register Rs; `shiftImm` is assigned on the path of LSL by an immediate only. -/
def shiftedRegisterOperand (h : Host) (u : Locals) (ins : BitVec 32) :
    ArmM (BitVec 32 × BitVec 32) := do
  let bits4_6 := getBits ins 6 4
  let rm ← armReadRegister (getBits ins 3 0).toNat
  let rs := getBits ins 11 8
  let bits7_11 := getBits ins 11 7
  let rsBits0_7 := getBits rs 7 0
  let rsBits0_4 := getBits rs 4 0
  match bits4_6.toNat with
  | 0b000 => -- LSL Immediate
    let shiftImm := getBits ins 11 7
    if shiftImm = 0 then
      return (rm, getBit (← armReadCpsr) C)
    else
      return (logicalShift h rm shiftImm 'l', getBitAt h rm (32 - shiftImm).toNat)
  | 0b001 => -- LSL Register
    if rsBits0_7 = 0 then
      return (rm, getBit (← armReadCpsr) C)
    else if rsBits0_7 < 32 then
      return (logicalShift h rm rsBits0_7 'l', getBitAt h rm (32 - rsBits0_7).toNat)
    else if rsBits0_7 = 32 then
      return (0, getBit rm 0)
    else
      return (0, 0)
  | 0b010 => -- LSR Immediate
    if u.shiftImm = 0 then
      return (0, getBit rm 31)
    else
      return (logicalShift h rm u.shiftImm 'r', getBitAt h rm (u.shiftImm - 1).toNat)
  | 0b011 => -- LSR Register
    if rsBits0_7 = 0 then
      return (rm, getBit (← armReadCpsr) C)
    else if rsBits0_7 < 32 then
      return (logicalShift h rm rsBits0_7 'r', getBitAt h rm (rsBits0_7 - 1).toNat)
    else if rsBits0_7 = 32 then
      return (0, getBit rm 31)
    else
      return (0, 0)
  | 0b100 => -- ASR Immediate
    if u.shiftImm = 0 then
      return (if getBit rm 31 = 0 then 0 else 0xFFFFFFFF, getBit rm 31)
    else
      return (asr h rm (u.shiftImm.setWidth 8), getBitAt h rm (u.shiftImm - 1).toNat)
  | 0b101 => -- ASR Register
    if rsBits0_7 = 0 then
      return (rm, getBit (← armReadCpsr) C)
    else if rsBits0_7 < 32 then
      return (asr h rm (rsBits0_7.setWidth 8), getBitAt h rm (rsBits0_7 - 1).toNat)
    else
      return (if getBit rm 31 = 0 then 0 else 0xFFFFFFFF, getBit rm 31)
  | 0b110 => -- ROR Immediate
    let cFlag := getBit (getBit ins 16) C
    let val1 := logicalShift h cFlag 31 'l'
    let val2 := logicalShift h rm 1 'r'
    if bits7_11 = 0 then
      return (val1 ||| val2, getBit rm 0)
    else if u.shiftImm = 0 then
      return (val1 ||| val2, getBit rm 0)
    else
      return (ror h rm (u.shiftImm.setWidth 8), getBitAt h rm (u.shiftImm - 1).toNat)
  | _ => -- 0b111, ROR Register; three bits leave nothing for the `default` case
    if rsBits0_7 = 0 then
      return (rm, getBit (← armReadCpsr) C)
    else if rsBits0_4 = 0 then
      return (rm, getBit rm 31)
    else
      return (ror h rm (rsBits0_4.setWidth 8), getBitAt h rm (rsBits0_4 - 1).toNat)

/-- The operand decode of `arm_execute_instruction`: `operand2` and `shifter_carry_out`. The
register form tests `bits4_11`, which is never assigned. -/
def dataProcessingOperand (h : Host) (u : Locals) (res : BitVec 32) :
    ArmM (BitVec 32 × BitVec 32) := do
  if getBit res 25 = 0 then
    if u.bits4_11 = 0 then
      let operand2 ← armReadRegister (getBits res 3 0).toNat
      return (operand2, getBit (← armReadCpsr) C)
    else
      shiftedRegisterOperand h u res
  else
    let bit8_11 := getBits res 11 8
    let bit0_7 := getBits res 7 0
    let operand2 := ror h bit0_7 ((bit8_11 * 2).setWidth 8)
    if bit8_11 = 0 then
      return (operand2, getBit (← armReadCpsr) C)
    else
      return (operand2, getBit operand2 31)

/-! ## What the decoders compute

`shifterResult` is the pure function behind `shiftedRegisterOperand`: the value `m` of Rm, the
carry flag and the local `shift_imm` are its inputs. -/

def shifterResult (h : Host) (shiftImm ins m carry : BitVec 32) : BitVec 32 × BitVec 32 :=
  let rs := getBits ins 11 8
  let rsBits0_7 := getBits rs 7 0
  let rsBits0_4 := getBits rs 4 0
  match (getBits ins 6 4).toNat with
  | 0b000 =>
    let amount := getBits ins 11 7
    if amount = 0 then (m, carry)
    else (logicalShift h m amount 'l', getBitAt h m (32 - amount).toNat)
  | 0b001 =>
    if rsBits0_7 = 0 then (m, carry)
    else if rsBits0_7 < 32 then
      (logicalShift h m rsBits0_7 'l', getBitAt h m (32 - rsBits0_7).toNat)
    else if rsBits0_7 = 32 then (0, getBit m 0)
    else (0, 0)
  | 0b010 =>
    if shiftImm = 0 then (0, getBit m 31)
    else (logicalShift h m shiftImm 'r', getBitAt h m (shiftImm - 1).toNat)
  | 0b011 =>
    if rsBits0_7 = 0 then (m, carry)
    else if rsBits0_7 < 32 then
      (logicalShift h m rsBits0_7 'r', getBitAt h m (rsBits0_7 - 1).toNat)
    else if rsBits0_7 = 32 then (0, getBit m 31)
    else (0, 0)
  | 0b100 =>
    if shiftImm = 0 then (if getBit m 31 = 0 then 0 else 0xFFFFFFFF, getBit m 31)
    else (asr h m (shiftImm.setWidth 8), getBitAt h m (shiftImm - 1).toNat)
  | 0b101 =>
    if rsBits0_7 = 0 then (m, carry)
    else if rsBits0_7 < 32 then
      (asr h m (rsBits0_7.setWidth 8), getBitAt h m (rsBits0_7 - 1).toNat)
    else (if getBit m 31 = 0 then 0 else 0xFFFFFFFF, getBit m 31)
  | 0b110 =>
    let val1 := logicalShift h (getBit (getBit ins 16) C) 31 'l'
    let val2 := logicalShift h m 1 'r'
    if getBits ins 11 7 = 0 then (val1 ||| val2, getBit m 0)
    else if shiftImm = 0 then (val1 ||| val2, getBit m 0)
    else (ror h m (shiftImm.setWidth 8), getBitAt h m (shiftImm - 1).toNat)
  | _ =>
    if rsBits0_7 = 0 then (m, carry)
    else if rsBits0_4 = 0 then (m, getBit m 31)
    else (ror h m (rsBits0_4.setWidth 8), getBitAt h m (rsBits0_4 - 1).toNat)

/-- A case of the shifter that takes the carry flag as carry-out. -/
theorem returnCarryFlag_runs (operand : BitVec 32) (c : ArmCore) :
    Runs visible (do return (operand, getBit (← armReadCpsr) C) : ArmM _) c
      (operand, getBit c.cpsr C) c [] :=
  (armReadCpsr_runs c).quietBind (Runs.pure _ _ c)

theorem shiftedRegisterOperand_runs (h : Host) (u : Locals) (ins : BitVec 32) (c : ArmCore) :
    Runs visible (shiftedRegisterOperand h u ins) c
      (shifterResult h u.shiftImm ins (c.regValue (getBits ins 3 0).toNat) (getBit c.cpsr C))
      c [] := by
  refine (armReadRegister_runs _ c).quietBind ?_
  have hcarry := returnCarryFlag_runs (c.regValue (getBits ins 3 0).toNat) c
  have hvalue (x : BitVec 32 × BitVec 32) : Runs visible (Pure.pure x : ArmM _) c x c [] :=
    Runs.pure _ x c
  unfold shifterResult
  generalize (getBits ins 6 4).toNat = bits4_6
  -- the cases test the amount first, and fall back on the carry flag where it is 0
  match bits4_6 with
  | 0 => exact hcarry.iteValue (hvalue _)
  | 1 => exact hcarry.iteValue ((hvalue _).iteValue ((hvalue _).iteValue (hvalue _)))
  | 2 => exact (hvalue _).iteValue (hvalue _)
  | 3 => exact hcarry.iteValue ((hvalue _).iteValue ((hvalue _).iteValue (hvalue _)))
  | 4 => exact (hvalue _).iteValue (hvalue _)
  | 5 => exact hcarry.iteValue ((hvalue _).iteValue (hvalue _))
  | 6 => exact (hvalue _).iteValue ((hvalue _).iteValue (hvalue _))
  | _ + 7 => exact hcarry.iteValue ((hvalue _).iteValue (hvalue _))

/-! ## Reads alone -/

namespace ReadProperty

variable {P : {α : Type} → ArmM α → Prop} (hP : ReadProperty P)

include hP

theorem returnCarryFlag (operand : BitVec 32) :
    P (do return (operand, getBit (← armReadCpsr) C) : ArmM _) :=
  hP.bind hP.readCpsr fun _ => hP.pure _

theorem shiftedRegisterOperand (h : Host) (u : Locals) (ins : BitVec 32) :
    P (Armator.shiftedRegisterOperand h u ins) := by
  refine hP.bind (hP.readRegister _) fun rm => ?_
  have hcarry := hP.returnCarryFlag rm
  have hvalue (x : BitVec 32 × BitVec 32) : P (Pure.pure x : ArmM _) := hP.pure x
  generalize (getBits ins 6 4).toNat = bits4_6
  match bits4_6 with
  | 0 => exact hP.ite hcarry (hvalue _)
  | 1 | 3 => exact hP.ite hcarry (hP.ite (hvalue _) (hP.ite (hvalue _) (hvalue _)))
  | 2 | 4 => exact hP.ite (hvalue _) (hvalue _)
  | 5 => exact hP.ite hcarry (hP.ite (hvalue _) (hvalue _))
  | 6 => exact hP.ite (hvalue _) (hP.ite (hvalue _) (hvalue _))
  | _ + 7 => exact hP.ite hcarry (hP.ite (hvalue _) (hvalue _))

/-- Decoding an operand is made of register reads. -/
theorem dataProcessingOperand (h : Host) (u : Locals) (res : BitVec 32) :
    P (Armator.dataProcessingOperand h u res) := by
  refine hP.ite (hP.ite ?_ (hP.shiftedRegisterOperand h u res)) ?_
  · exact hP.bind (hP.readRegister _) fun operand2 => hP.returnCarryFlag operand2
  · exact hP.ite (hP.returnCarryFlag _) (hP.pure _)

end ReadProperty

end Armator
