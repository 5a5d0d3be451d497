import Armator.Instr.Step
import Armator.Lib.CShift

set_option autoImplicit false

/-! # The shifts of one step

For each function that `arm_step` reaches, the C shifts that a call of it evaluates, in the order
of the source and along the branches it takes. `~0` and the masks made from it are `int`s, as are
promoted `uint8_t` operands; a `uint32_t` amount is not negative.
-/

namespace Armator

open CShift

/-! ## `util.h`, `util.c`, `memory.c` -/

/-- `get_bit(x, i)`, for an `x` of the given width. -/
def getBitShifts (width : Nat) (i : Int) : List CShift := [⟨width, i⟩]

/-- `get_bits(x, h, l)`, for an `x` of the given width. -/
def getBitsShifts (width h l : Nat) : List CShift :=
  [⟨width, l⟩, ⟨32, h - l + 1⟩, ⟨32, h - l + 1⟩]

/-- `set_bit(x, i)` and `clr_bit(x, i)` -/
def setBitShifts (i : Nat) : List CShift := [⟨32, i⟩]

/-- `set_bits(x, h, l, bits)` -/
def setBitsShifts (h l : Nat) : List CShift :=
  [⟨32, l⟩, ⟨32, l⟩, ⟨32, h + 1⟩, ⟨32, h + 1⟩, ⟨32, l⟩]

def asrShifts (value : BitVec 32) (shift : BitVec 8) : List CShift :=
  [⟨32, shift.toNat⟩] ++ getBitShifts 32 31 ++
    if getBit value 31 ≠ 0 then [⟨32, 32 - shift.toNat⟩] else []

def rorShifts (rotation : BitVec 8) : List CShift :=
  [⟨32, rotation.toNat⟩, ⟨32, 32 - rotation.toNat⟩]

def memoryReadWordShifts (mem : Memory) (address : BitVec 32) : List CShift :=
  if address.toNat ≤ mem.size then
    if mem.isBigEndian = 0 then [⟨32, 8⟩, ⟨32, 16⟩, ⟨32, 24⟩]
    else [⟨32, 24⟩, ⟨32, 16⟩, ⟨32, 8⟩]
  else []

/-- The same in both byte orders. -/
def memoryWriteWordShifts : List CShift := [⟨32, 8⟩, ⟨32, 16⟩, ⟨32, 24⟩]

/-! ## Conditions and flags -/

def conditionPassedShifts (cond : BitVec 8) (flag : BitVec 32) : List CShift :=
  match cond.toNat with
  | 0b0000 | 0b0001 => getBitShifts 32 30
  | 0b0010 | 0b0011 => getBitShifts 32 29
  | 0b0100 | 0b0101 => getBitShifts 32 31
  | 0b0110 | 0b0111 => getBitShifts 32 28
  | 0b1000 => getBitShifts 32 29 ++ if getBit flag 29 = 1 then getBitShifts 32 30 else []
  | 0b1001 => getBitShifts 32 29 ++ if getBit flag 29 = 0 then getBitShifts 32 30 else []
  | 0b1010 | 0b1011 => getBitShifts 32 31 ++ getBitShifts 32 28
  | 0b1100 =>
    getBitShifts 32 30 ++
      if getBit flag 30 = 0 then getBitShifts 32 31 ++ getBitShifts 32 28 else []
  | 0b1101 =>
    getBitShifts 32 30 ++
      if getBit flag 30 = 1 then [] else getBitShifts 32 31 ++ getBitShifts 32 28
  | _ => []

/-- The body of the four `update_Flag_` functions: `set_bit` or `clr_bit`. -/
def updateFlagAtShifts (i : Nat) : List CShift := setBitShifts i

/-- `get_bits(operands_result, 63, 32)` takes `~0`, an `int`, by 32. -/
def updateFlagShifts (h : Host) (flag : BitVec 32) (operandsResult : BitVec 64) : List CShift :=
  getBitShifts 32 20 ++
    if getBit flag 20 = 1 then
      (if operandsResult = 0 then updateFlagAtShifts Z else []) ++
        (getBitShifts 64 31 ++
          (if getBit operandsResult 31 = 1 then updateFlagAtShifts N else []) ++
            (getBitsShifts 64 63 32 ++
              if getBits63To32 h operandsResult ≠ 0 then
                updateFlagAtShifts V ++ updateFlagAtShifts C
              else []))
    else []

/-! ## The shifter operand -/

def logicalShiftShifts (shift : BitVec 32) (direction : Char) : List CShift :=
  if direction = 'r' then [⟨32, shift.toNat⟩]
  else if direction = 'l' then [⟨32, shift.toNat⟩]
  else []

/-- `rm` is the value of Rm. -/
def shiftedRegisterOperandShifts (u : Locals) (ins rm : BitVec 32) : List CShift :=
  let rs := getBits ins 11 8
  let rsBits0_7 := getBits rs 7 0
  let rsBits0_4 := getBits rs 4 0
  getBitsShifts 32 6 4 ++ getBitsShifts 32 3 0 ++ getBitsShifts 32 11 8 ++ getBitsShifts 32 11 7 ++
    getBitsShifts 32 7 0 ++ getBitsShifts 32 4 0 ++
    match (getBits ins 6 4).toNat with
    | 0b000 => -- LSL Immediate
      let shiftImm := getBits ins 11 7
      getBitsShifts 32 11 7 ++
        if shiftImm = 0 then getBitShifts 32 C
        else logicalShiftShifts shiftImm 'l' ++ getBitShifts 32 (32 - shiftImm).toNat
    | 0b001 => -- LSL Register
      if rsBits0_7 = 0 then getBitShifts 32 C
      else if rsBits0_7 < 32 then
        logicalShiftShifts rsBits0_7 'l' ++ getBitShifts 32 (32 - rsBits0_7).toNat
      else if rsBits0_7 = 32 then getBitShifts 32 0
      else []
    | 0b010 => -- LSR Immediate
      if u.shiftImm = 0 then getBitShifts 32 31
      else logicalShiftShifts u.shiftImm 'r' ++ getBitShifts 32 (u.shiftImm - 1).toNat
    | 0b011 => -- LSR Register
      if rsBits0_7 = 0 then getBitShifts 32 C
      else if rsBits0_7 < 32 then
        logicalShiftShifts rsBits0_7 'r' ++ getBitShifts 32 (rsBits0_7 - 1).toNat
      else if rsBits0_7 = 32 then getBitShifts 32 31
      else []
    | 0b100 => -- ASR Immediate
      if u.shiftImm = 0 then getBitShifts 32 31 ++ getBitShifts 32 31
      else asrShifts rm (u.shiftImm.setWidth 8) ++ getBitShifts 32 (u.shiftImm - 1).toNat
    | 0b101 => -- ASR Register
      if rsBits0_7 = 0 then getBitShifts 32 C
      else if rsBits0_7 < 32 then
        asrShifts rm (rsBits0_7.setWidth 8) ++ getBitShifts 32 (rsBits0_7 - 1).toNat
      else getBitShifts 32 31 ++ getBitShifts 32 31
    | 0b110 => -- ROR Immediate
      getBitShifts 32 16 ++ getBitShifts 32 C ++ logicalShiftShifts 31 'l' ++
        logicalShiftShifts 1 'r' ++
        if getBits ins 11 7 = 0 then getBitShifts 32 0
        else if u.shiftImm = 0 then getBitShifts 32 0
        else rorShifts (u.shiftImm.setWidth 8) ++ getBitShifts 32 (u.shiftImm - 1).toNat
    | _ => -- ROR Register
      if rsBits0_7 = 0 then getBitShifts 32 C
      else if rsBits0_4 = 0 then getBitShifts 32 31
      else rorShifts (rsBits0_4.setWidth 8) ++ getBitShifts 32 (rsBits0_4 - 1).toNat

/-- The operand decode of `arm_execute_instruction`, in the state `c`. -/
def dataProcessingOperandShifts (u : Locals) (res : BitVec 32) (c : ArmCore) : List CShift :=
  if getBit res 25 = 0 then
    if u.bits4_11 = 0 then getBitsShifts 32 3 0 ++ getBitShifts 32 C
    else shiftedRegisterOperandShifts u res (c.regValue (getBits res 3 0).toNat)
  else
    let bit8_11 := getBits res 11 8
    getBitsShifts 32 11 8 ++ getBitsShifts 32 7 0 ++ rorShifts ((bit8_11 * 2).setWidth 8) ++
      if bit8_11 = 0 then getBitShifts 32 C else getBitShifts 32 31

/-- The opcode `switch`; `flag` is the CPSR. -/
def dataProcessingShifts (h : Host) (flag opcode operand1 operand2 : BitVec 32) : List CShift :=
  let operand3 := getBit flag C
  match opcode.toNat with
  | 0b0000 => updateFlagShifts h flag ((operand1 &&& operand2).setWidth 64)
  | 0b0001 => updateFlagShifts h flag ((operand1 ^^^ operand2).setWidth 64)
  | 0b0010 => updateFlagShifts h flag ((operand1 - operand2).setWidth 64)
  | 0b0011 => updateFlagShifts h flag ((operand2 - operand1).setWidth 64)
  | 0b0100 => updateFlagShifts h flag ((operand1 + operand2).setWidth 64)
  | 0b0101 =>
    getBitShifts 32 C ++ updateFlagShifts h flag ((operand1 + operand2 + operand3).setWidth 64)
  | 0b0110 =>
    getBitShifts 32 C ++
      updateFlagShifts h flag ((operand1 - operand2 - cNot operand3).setWidth 64)
  | 0b0111 =>
    getBitShifts 32 C ++
      updateFlagShifts h flag ((operand2 - operand1 - cNot operand3).setWidth 64)
  | 0b1000 | 0b1001 => -- TST, TEQ
    updateFlagAtShifts Z ++ getBitShifts 64 31 ++ updateFlagAtShifts N ++ updateFlagAtShifts C
  | 0b1010 => -- CMP
    updateFlagAtShifts Z ++ getBitShifts 64 31 ++ updateFlagAtShifts N ++ getBitsShifts 64 63 32 ++
      if getBits63To32 h ((operand1 - operand2).setWidth 64) ≠ 0 then
        updateFlagAtShifts V ++ updateFlagAtShifts C
      else []
  | 0b1011 => -- CMN
    updateFlagAtShifts Z ++ getBitShifts 64 31 ++ updateFlagAtShifts N ++ getBitsShifts 64 63 32 ++
      if getBits63To32 h ((operand1 + operand2).setWidth 64) ≠ 0 then
        updateFlagAtShifts V ++ updateFlagAtShifts C
      else []
  | 0b1100 => updateFlagShifts h flag ((operand1 ||| operand2).setWidth 64)
  | 0b1110 => updateFlagShifts h flag ((operand1 &&& cNot operand2).setWidth 64)
  | _ => [] -- MOV, MVN

/-! ## Loads, stores and branches -/

/-- `rm` is what the caller passes as Rm. -/
def loadStoreShiftsRotateShifts (shift shiftImm rm ins : BitVec 32) : List CShift :=
  match shift.toNat with
  | 0b00 => [⟨32, shiftImm.toNat⟩]
  | 0b01 => if shiftImm = 0 then [] else [⟨32, shiftImm.toNat⟩]
  | 0b10 => if shiftImm = 0 then getBitShifts 32 31 else asrShifts rm (shiftImm.setWidth 8)
  | _ =>
    if shiftImm = 0 then
      getBitShifts 32 C ++ [⟨32, 31⟩] ++ if getBit ins C <<< 31 ≠ 0 then [] else [⟨32, 1⟩]
    else rorShifts (shiftImm.setWidth 8)

def armLoadStoreShifts (ins : BitVec 32) : List CShift :=
  getBitsShifts 32 19 16 ++ getBitsShifts 32 15 12 ++ getBitsShifts 32 3 0 ++ getBitShifts 32 25 ++
    getBitShifts 32 21 ++ getBitShifts 32 23 ++ getBitShifts 32 24 ++ getBitsShifts 32 11 7 ++
    getBitsShifts 32 6 5 ++
    if getBit ins 25 ≠ 0 then
      getBitsShifts 32 11 4 ++
        if getBits ins 11 4 ≠ 0 then
          loadStoreShiftsRotateShifts (getBits ins 6 5) (getBits ins 11 7) (getBits ins 3 0) ins
        else []
    else getBitsShifts 32 11 0

/-- A store reads the location back, a load takes the two low bits of the address. -/
def loadStoreByteOrWordShifts (mem : Memory)
    (loadStoreAddress rdValue bit20 bit22 : BitVec 32) : List CShift :=
  if bit20 = 0 ∧ bit22 = 0 then -- STR
    memoryWriteWordShifts ++
      memoryReadWordShifts (memoryWriteWord mem loadStoreAddress rdValue).2 loadStoreAddress
  else if bit20 = 0 ∧ bit22 ≠ 0 then -- STRB
    getBitsShifts 32 7 0
  else if bit20 ≠ 0 ∧ bit22 = 0 then -- LDR
    memoryReadWordShifts mem loadStoreAddress ++ getBitsShifts 32 1 0 ++
      rorShifts ((8 * getBits loadStoreAddress 1 0).setWidth 8)
  else -- LDRB
    []

def extend30Shifts (ins : BitVec 32) : List CShift :=
  getBitsShifts 32 23 0 ++ getBitShifts 32 23 ++
    if getBit ins 23 = 0 then setBitsShifts 30 24 else setBitsShifts 30 24

def armBranchShifts (ins : BitVec 32) : List CShift :=
  getBitShifts 32 24 ++
    if getBit ins 24 = 0 then extend30Shifts ins ++ [⟨32, 2⟩] else extend30Shifts ins ++ [⟨32, 2⟩]

/-! ## The step -/

/-- `arm_execute_instruction` after its fetch, in the state `c`. -/
def executeFetchedShifts (h : Host) (u : Locals) (res : BitVec 32) (c : ArmCore) : List CShift :=
  let condBits := (getBits res 31 28).setWidth 8
  let passed := conditionValue u condBits c.cpsr ≠ 0
  getBitsShifts 32 27 26 ++ getBitShifts 32 25 ++ getBitsShifts 32 24 21 ++
    getBitsShifts 32 19 16 ++ getBitsShifts 32 15 12 ++ getBitsShifts 32 31 28 ++
    match (getBits res 27 26).toNat with
    | 0b00 =>
      getBitsShifts 32 24 23 ++ getBitShifts 32 20 ++
        if getBits res 24 23 = 0b10 ∧ getBit res 20 = 0 then []
        else conditionPassedShifts condBits c.cpsr ++
          if passed then
            dataProcessingOperandShifts u res c ++
              dataProcessingShifts h c.cpsr (getBits res 24 21)
                (c.regValue (getBits res 19 16).toNat) (dataProcessingOperand h u res c).value.1
          else []
    | 0b01 =>
      conditionPassedShifts condBits c.cpsr ++
        if passed then
          armLoadStoreShifts res ++ getBitShifts 32 20 ++ getBitShifts 32 22 ++
            loadStoreByteOrWordShifts c.mem (armLoadStore h res)
              (c.regValue (getBits res 15 12).toNat) (getBit res 20) (getBit res 22)
        else []
    | 0b10 =>
      if getBit res 25 = 0 then []
      else conditionPassedShifts condBits c.cpsr ++ if passed then armBranchShifts res else []
    | _ => []

/-- `arm_step`: the fetch, and what is done with the word `res` that it returns. No step calls
`arm_exception`. -/
def armStepShifts (h : Host) (u : Locals) (c : ArmCore) : List CShift :=
  let res := BitVec.ofInt 32 (armFetch u.instr c).value.1
  memoryReadWordShifts c.mem c.fetchAddress ++
    executeFetchedShifts h u res (armFetch u.instr c).state

end Armator
