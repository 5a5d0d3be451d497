import Armator.Basic.Trace
import Armator.Instr.Step

set_option autoImplicit false

/-! # The traced accesses of one step

For each function that `arm_step` reaches, the macros of `trace_location.h` that a call of it
evaluates, in the order of the source and along the branches it takes. `arm_branch` reads the pc in
the argument of the write of the pc; nowhere else a macro stands in an argument of another.
-/

namespace Armator

open Logged

/-! ## Conditions, flags and operands -/

def conditionPassedLocations : TracedText := traced .readCpsr

/-- The four `update_Flag_` functions. -/
def updateFlagAtLocations : TracedText := traced .readCpsr

/-- `flag` is the CPSR. -/
def updateFlagLocations (h : Host) (flag : BitVec 32) (operandsResult : BitVec 64) : TracedText :=
  traced .readCpsr ++
    if getBit flag 20 = 1 then
      (if operandsResult = 0 then updateFlagAtLocations else .done) ++
        ((if getBit operandsResult 31 = 1 then updateFlagAtLocations else .done) ++
          if getBits63To32 h operandsResult ≠ 0 then
            updateFlagAtLocations ++ updateFlagAtLocations
          else .done)
    else .done

def shiftedRegisterOperandLocations (ins : BitVec 32) : TracedText :=
  let carryIf (P : Prop) [Decidable P] : TracedText := if P then traced .readCpsr else .done
  traced (.readRegister (getBits ins 3 0).toNat) ++
    match (getBits ins 6 4).toNat with
    | 0b000 => carryIf (getBits ins 11 7 = 0) -- LSL Immediate
    | 0b001 | 0b011 | 0b101 => carryIf (getBits (getBits ins 11 8) 7 0 = 0) -- by a register
    | 0b010 | 0b100 | 0b110 => .done
    | _ => carryIf (getBits (getBits ins 11 8) 7 0 = 0) -- ROR Register

/-- The operand decode of `arm_execute_instruction`. -/
def dataProcessingOperandLocations (u : Locals) (res : BitVec 32) : TracedText :=
  if getBit res 25 = 0 then
    if u.bits4_11 = 0 then
      traced (.readRegister (getBits res 3 0).toNat) ++ traced .readCpsr
    else
      shiftedRegisterOperandLocations res
  else
    if getBits res 11 8 = 0 then traced .readCpsr else .done

/-! ## Execution -/

/-- The opcode `switch`; `flag` is the CPSR. -/
def dataProcessingLocations (h : Host) (flag opcode operand1 operand2 : BitVec 32) (rd : Nat) :
    TracedText :=
  let operand3 := getBit flag C
  let result (operandsResult : BitVec 32) : TracedText :=
    traced (.writeRegister rd) ++ updateFlagLocations h flag (operandsResult.setWidth 64)
  let compare (aluOut : BitVec 32) : TracedText :=
    updateFlagAtLocations ++ (updateFlagAtLocations ++
      if getBits63To32 h (aluOut.setWidth 64) ≠ 0 then
        updateFlagAtLocations ++ updateFlagAtLocations
      else .done)
  match opcode.toNat with
  | 0b0000 => result (operand1 &&& operand2)
  | 0b0001 => result (operand1 ^^^ operand2)
  | 0b0010 => result (operand1 - operand2)
  | 0b0011 => result (operand2 - operand1)
  | 0b0100 => result (operand1 + operand2)
  | 0b0101 => traced .readCpsr ++ result (operand1 + operand2 + operand3)
  | 0b0110 => traced .readCpsr ++ result (operand1 - operand2 - cNot operand3)
  | 0b0111 => traced .readCpsr ++ result (operand2 - operand1 - cNot operand3)
  | 0b1000 | 0b1001 => -- TST, TEQ
    updateFlagAtLocations ++ (updateFlagAtLocations ++ updateFlagAtLocations)
  | 0b1010 => compare (operand1 - operand2)
  | 0b1011 => compare (operand1 + operand2)
  | 0b1100 => -- ORR
    updateFlagLocations h flag ((operand1 ||| operand2).setWidth 64) ++ traced (.writeRegister rd)
  | 0b1101 => traced (.writeRegister rd)
  | 0b1110 => result (operand1 &&& cNot operand2)
  | _ => traced (.writeRegister rd)

def loadStoreByteOrWordLocations (bit20 bit22 : BitVec 32) (rd : Nat) : TracedText :=
  if bit20 = 0 ∧ bit22 = 0 then -- STR
    traced .writeWord ++ traced .readWord
  else if bit20 = 0 ∧ bit22 ≠ 0 then -- STRB
    traced .writeByte ++ traced .readByte
  else if bit20 ≠ 0 ∧ bit22 = 0 then -- LDR
    traced .readWord ++ if rd = 15 then traced (.writeRegister rd) else traced (.writeRegister rd)
  else -- LDRB
    traced .readByte ++ traced (.writeRegister rd)

/-- `arm_write_register(p,15, arm_read_register(p,15)+x)` -/
def writePcLocations : TracedText := .access (.writeRegister 15) (traced (.readRegister 15)) .done

def armBranchLocations (ins : BitVec 32) : TracedText :=
  if getBit ins 24 = 0 then -- B
    writePcLocations
  else -- BL
    traced (.readRegister 15) ++ (traced (.writeRegister 14) ++ writePcLocations)

/-- `arm_execute_instruction` after its fetch, in the state `c`. -/
def executeFetchedLocations (h : Host) (u : Locals) (res instr : BitVec 32) (c : ArmCore) :
    TracedText :=
  let rn := (getBits res 19 16).toNat
  let rd := (getBits res 15 12).toNat
  let condBits := (getBits res 31 28).setWidth 8
  let conditional (t : TracedText) : TracedText :=
    conditionPassedLocations ++ if (conditionPassed u condBits c).value ≠ 0 then t else .done
  traced (.readRegister rn) ++
    match (getBits res 27 26).toNat with
    | 0b00 =>
      if getBits res 24 23 = 0b10 ∧ getBit res 20 = 0 then .done
      else conditional (dataProcessingOperandLocations u res ++
        dataProcessingLocations h c.cpsr (getBits res 24 21) (c.regValue rn)
          (dataProcessingOperand h u res c).value.1 rd)
    | 0b01 =>
      conditional (traced (.readRegister rd) ++
        loadStoreByteOrWordLocations (getBit res 20) (getBit res 22) rd)
    | 0b10 => if getBit res 25 = 0 then .done else conditional (armBranchLocations instr)
    | _ => .done

def armExceptionLocations (exception : BitVec 8) : TracedText :=
  if (exception.toNat : Int) = RESET then traced .writeCpsr ++ traced (.writeUsrRegister 15)
  else .done

def armStepLocations (h : Host) (u : Locals) (c : ArmCore) : TracedText :=
  let fetch := armFetch u.instr c
  let result := (armExecuteInstruction h u c).value
  (traced .fetch ++
    executeFetchedLocations h u (BitVec.ofInt 32 fetch.value.1) fetch.value.2 fetch.state) ++
      if result ≠ 0 then armExceptionLocations (BitVec.ofInt 8 result) else .done

end Armator
