import Armator.Instr.Condition

set_option autoImplicit false

/-! # Loads and stores (`arm_load_store.c`, `arm_instruction.c`) -/

namespace Armator

open Logged

/-- The `index` computed for a scaled register: `rm` is what the caller passes as Rm. -/
def loadStoreShiftsRotate (h : Host) (shift shiftImm rm ins : BitVec 32) : BitVec 32 :=
  match shift.toNat with
  | 0b00 => cShl h rm shiftImm.toNat
  | 0b01 => if shiftImm = 0 then 0 else cShr h rm shiftImm.toNat
  | 0b10 =>
    if shiftImm = 0 then
      if getBit rm 31 ≠ 0 then 0xFFFFFFFF else 0
    else
      asr h rm (shiftImm.setWidth 8)
  | _ =>
    if shiftImm = 0 then
      -- the two operands are joined by `||`, so RRX yields 0 or 1
      if getBit ins C <<< 31 ≠ 0 ∨ rm >>> 1 ≠ 0 then 1 else 0
    else
      ror h rm (shiftImm.setWidth 8)

/-- The field itself: the read of the register it names is commented out. -/
def getValueFromIns (ins : BitVec 32) (h l : Nat) : BitVec 32 := getBits ins h l

/-- The `return rn` of the source: `address` is computed and dropped. -/
def armLoadStore (h : Host) (ins : BitVec 32) : BitVec 32 :=
  let rn := getValueFromIns ins 19 16
  let rm := getValueFromIns ins 3 0
  let bit25 := getBit ins 25
  let bit21 := getBit ins 21
  let bit23 := getBit ins 23
  let bit24 := getBit ins 24
  let shiftImm := getBits ins 11 7
  let shift := getBits ins 6 5
  if bit25 ≠ 0 then
    let bits4_11 := getBits ins 11 4
    if bits4_11 ≠ 0 then
      if bit24 ≠ 0 then -- scaled register pre-indexed
        let index := loadStoreShiftsRotate h shift shiftImm rm ins
        if bit23 ≠ 0 then rn + index else rn - index
      else -- scaled register post-indexed
        let index := loadStoreShiftsRotate h shift shiftImm rm ins
        if bit23 ≠ 0 then rn + index else rn - index
    else
      if bit24 ≠ 0 then -- register pre-indexed
        let address := if bit23 ≠ 0 then rn + rm else rn - rm
        address
      else -- register post-indexed
        if bit23 ≠ 0 then rn + rm else rn - rm
  else
    let offset12 := getBits ins 11 0
    if bit21 ≠ 0 then -- immediate pre-indexed
      let address := if bit23 ≠ 0 then rn + offset12 else rn - offset12
      address
    else -- immediate post-indexed
      if bit23 ≠ 0 then rn + offset12 else rn - offset12

def armLoadStoreMultiple (_ins : BitVec 32) : Int := UNDEFINED_INSTRUCTION

def armCoprocessorLoadStore (_ins : BitVec 32) : Int := UNDEFINED_INSTRUCTION

/-- A store reads the location back for its message. A load takes the *return value* of the
read as the datum. -/
def loadStoreByteOrWord (h : Host) (u : Locals) (loadStoreAddress rdValue bit20 bit22 : BitVec 32)
    (rd : Nat) : ArmM Unit := do
  if bit20 = 0 ∧ bit22 = 0 then -- STR
    let _ ← armWriteWord loadStoreAddress rdValue
    let _ ← armReadWord loadStoreAddress u.word
  else if bit20 = 0 ∧ bit22 ≠ 0 then -- STRB
    let _ ← armWriteByte loadStoreAddress ((getBits rdValue 7 0).setWidth 8)
    let _ ← armReadByte loadStoreAddress u.byte
  else if bit20 ≠ 0 ∧ bit22 = 0 then -- LDR
    let val1 := BitVec.ofInt 32 (← armReadWord loadStoreAddress u.word).1
    let val2 := getBits loadStoreAddress 1 0
    let data := ror h val1 ((8 * val2).setWidth 8)
    if rd = 15 then
      armWriteRegister rd (data &&& 0xFFFFFFFE)
    else
      armWriteRegister rd data
  else -- LDRB; the fourth condition of the source is the only one left
    let y := BitVec.ofInt 8 (← armReadByte loadStoreAddress u.byte).1
    armWriteRegister rd (y.setWidth 32)

/-- Loads and stores are made of accesses: STR, STRB, LDR with its test for the pc, LDRB. -/
theorem AccessProperty.loadStoreByteOrWord {P : {α : Type} → ArmM α → Prop}
    (hP : AccessProperty P) (h : Host) (u : Locals) (address rdValue bit20 bit22 : BitVec 32)
    (rd : Nat) : P (Armator.loadStoreByteOrWord h u address rdValue bit20 bit22 rd) := by
  refine hP.ite ?_ (hP.ite ?_ (hP.ite ?_ ?_))
  · exact hP.bind (hP.writeWord address rdValue) fun _ =>
      hP.bind (hP.readWord address u.word) fun _ => hP.pure ()
  · exact hP.bind (hP.writeByte address _) fun _ =>
      hP.bind (hP.readByte address u.byte) fun _ => hP.pure ()
  · exact hP.bind (hP.readWord address u.word) fun _ =>
      hP.ite (hP.writeRegister rd _) (hP.writeRegister rd _)
  · exact hP.bind (hP.readByte address u.byte) fun _ => hP.writeRegister rd _

end Armator
