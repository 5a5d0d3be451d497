import Armator.Instr.Operand
import Armator.Instr.LoadStore
import Armator.Instr.Branch

set_option autoImplicit false

/-! # Executing one instruction (`arm_instruction.c`)

`arm_execute_instruction` is cut in three: the opcode `switch` (`dataProcessing`), what
follows the fetch (`executeFetched`), and the fetch. `res` is the return value of `arm_fetch`,
decoded by the dispatcher; `instr` is the word stored through its pointer, passed on to the
decoding functions of the classes.
-/

namespace Armator

open Logged

/-- The opcode `switch`. Results are `uint64_t` values of 32-bit expressions. -/
def dataProcessing (h : Host) (opcode operand1 operand2 shifterCarryOut : BitVec 32)
    (rd : Nat) : ArmM Unit := do
  match opcode.toNat with
  | 0b0000 => -- AND
    let operandsResult := (operand1 &&& operand2).setWidth 64
    armWriteRegister rd (operandsResult.setWidth 32)
    updateFlag h operandsResult
  | 0b0001 => -- EOR
    let operandsResult := (operand1 ^^^ operand2).setWidth 64
    armWriteRegister rd (operandsResult.setWidth 32)
    updateFlag h operandsResult
  | 0b0010 => -- SUB
    let operandsResult := (operand1 - operand2).setWidth 64
    armWriteRegister rd (operandsResult.setWidth 32)
    updateFlag h operandsResult
  | 0b0011 => -- RSB
    let operandsResult := (operand2 - operand1).setWidth 64
    armWriteRegister rd (operandsResult.setWidth 32)
    updateFlag h operandsResult
  | 0b0100 => -- ADD
    let operandsResult := (operand1 + operand2).setWidth 64
    armWriteRegister rd (operandsResult.setWidth 32)
    updateFlag h operandsResult
  | 0b0101 => -- ADC
    let operand3 := getBit (← armReadCpsr) C
    let operandsResult := (operand1 + operand2 + operand3).setWidth 64
    armWriteRegister rd (operandsResult.setWidth 32)
    updateFlag h operandsResult
  | 0b0110 => -- SBC
    let operand3 := cNot (getBit (← armReadCpsr) C)
    let operandsResult := (operand1 - operand2 - operand3).setWidth 64
    armWriteRegister rd (operandsResult.setWidth 32)
    updateFlag h operandsResult
  | 0b0111 => -- RSC
    let operand3 := cNot (getBit (← armReadCpsr) C)
    let operandsResult := (operand2 - operand1 - operand3).setWidth 64
    armWriteRegister rd (operandsResult.setWidth 32)
    updateFlag h operandsResult
  | 0b1000 => -- TST
    let aluOut : BitVec 64 := (operand1 &&& operand2).setWidth 64
    updateFlagZ (cNot aluOut)
    updateFlagN ((getBit aluOut 31).setWidth 32)
    updateFlagC shifterCarryOut
  | 0b1001 => -- TEQ
    let aluOut : BitVec 64 := (operand1 ||| operand2).setWidth 64
    updateFlagZ (cNot aluOut)
    updateFlagN ((getBit aluOut 31).setWidth 32)
    updateFlagC shifterCarryOut
  | 0b1010 => -- CMP
    let aluOut : BitVec 64 := (operand1 - operand2).setWidth 64
    updateFlagZ (cNot aluOut)
    updateFlagN ((getBit aluOut 31).setWidth 32)
    if getBits63To32 h aluOut ≠ 0 then
      updateFlagV 1
      updateFlagC 1
  | 0b1011 => -- CMN
    let aluOut : BitVec 64 := (operand1 + operand2).setWidth 64
    updateFlagZ (cNot aluOut)
    updateFlagN ((getBit aluOut 31).setWidth 32)
    if getBits63To32 h aluOut ≠ 0 then
      updateFlagV 1
      updateFlagC 1
  | 0b1100 => -- ORR
    let operandsResult := (operand1 ||| operand2).setWidth 64
    updateFlag h operandsResult
    armWriteRegister rd (operandsResult.setWidth 32)
  | 0b1101 => -- MOV
    armWriteRegister rd operand2
  | 0b1110 => -- BIC, with the logical negation
    let operandsResult := (operand1 &&& cNot operand2).setWidth 64
    armWriteRegister rd (operandsResult.setWidth 32)
    updateFlag h operandsResult
  | _ => -- 0b1111, MVN, with the logical negation
    armWriteRegister rd (cNot operand2)

/-- `arm_execute_instruction` after its fetch. The statuses of the decoding functions go to
`arm_decode`, which nothing reads. -/
def executeFetched (h : Host) (u : Locals) (res instr : BitVec 32) : ArmM Int := do
  let bits26_27 := getBits res 27 26
  let bit25 := getBit res 25
  let opcode := getBits res 24 21
  let operand1 ← armReadRegister (getBits res 19 16).toNat
  let rd := (getBits res 15 12).toNat
  let condBits := (getBits res 31 28).setWidth 8
  match bits26_27.toNat with
  | 0b00 => -- data processing and miscellaneous instructions
    let bit23_24 := getBits res 24 23
    let bit20 := getBit res 20
    if bit23_24 = 0b10 ∧ bit20 = 0 then
      let _armDecode := armMiscellaneous instr
    else if (← conditionPassed u condBits) ≠ 0 then
      let operand2 ← dataProcessingOperand h u res
      dataProcessing h opcode operand1 operand2.1 operand2.2 rd
  | 0b01 => -- load/store instructions
    if (← conditionPassed u condBits) ≠ 0 then
      let loadStoreAddress := armLoadStore h instr
      let bit20 := getBit res 20
      let bit22 := getBit res 22
      let rdValue ← armReadRegister rd
      loadStoreByteOrWord h u loadStoreAddress rdValue bit20 bit22 rd
  | 0b10 => -- branch and load/store multiple
    if bit25 = 0 then
      let _armDecode := armLoadStoreMultiple instr
    else if (← conditionPassed u condBits) ≠ 0 then
      let _armDecode ← armBranch instr
  | _ => -- 0b11, coprocessor; SWI has `bit25` set and is not dispatched
    if bit25 = 0 then
      let _armDecode := armCoprocessorLoadStore instr
  return 0

def armExecuteInstruction (h : Host) (u : Locals) : ArmM Int := do
  let fetch ← armFetch u.instr
  executeFetched h u (BitVec.ofInt 32 fetch.1) fetch.2

def armStep (h : Host) (u : Locals) : ArmM Int := do
  let result ← armExecuteInstruction h u
  if result ≠ 0 then
    armException (BitVec.ofInt 8 result)
  return result

/-! ## Steps are made of accesses -/

namespace AccessProperty

variable {P : {α : Type} → ArmM α → Prop} (hP : AccessProperty P)

include hP

theorem dataProcessing (h : Host) (opcode operand1 operand2 shifterCarryOut : BitVec 32)
    (rd : Nat) : P (Armator.dataProcessing h opcode operand1 operand2 shifterCarryOut rd) := by
  have hresult (x : BitVec 32) (y : BitVec 64) :
      P (do armWriteRegister rd x; updateFlag h y : ArmM Unit) :=
    hP.bind (hP.writeRegister rd x) fun _ => hP.updateFlag h y
  unfold Armator.dataProcessing
  generalize opcode.toNat = k
  match k with
  | 0 | 1 | 2 | 3 | 4 | 14 => exact hresult _ _
  | 5 | 6 | 7 => exact hP.bind hP.readCpsr fun _ => hresult _ _
  | 8 | 9 => exact hP.testFlags _ _ _
  | 10 | 11 => exact hP.compareFlags h _ _ _
  | 12 => exact hP.bind (hP.updateFlag h _) fun _ => hP.writeRegister rd _
  | 13 | _ + 15 => exact hP.writeRegister rd _

/-- A dispatch arm that asks `ConditionPassed` first. -/
theorem conditional {m : ArmM Int} (u : Locals) (cond : BitVec 8) (hm : P m) :
    P (do if (← conditionPassed u cond) ≠ 0 then m else return 0) :=
  hP.bind (hP.conditionPassed u cond) fun _ => hP.ite hm (hP.pure 0)

theorem executeFetched (h : Host) (u : Locals) (res instr : BitVec 32) :
    P (Armator.executeFetched h u res instr) := by
  have hnothing : P (return 0 : ArmM Int) := hP.pure 0
  refine hP.bind (hP.readRegister _) fun operand1 => ?_
  generalize (getBits res 27 26).toNat = bits26_27
  match bits26_27 with
  | 0 =>
      exact hP.ite hnothing <| hP.conditional u _ <|
        hP.bind (hP.dataProcessingOperand h u res) fun _ =>
          hP.bind (hP.dataProcessing h _ _ _ _ _) fun _ => hnothing
  | 1 =>
      exact hP.conditional u _ <| hP.bind (hP.readRegister _) fun _ =>
        hP.bind (hP.loadStoreByteOrWord h u _ _ _ _ _) fun _ => hnothing
  | 2 =>
      exact hP.ite hnothing <| hP.conditional u _ <|
        hP.bind (hP.armBranch instr) fun _ => hnothing
  | _ + 3 => exact hP.ite hnothing hnothing

theorem armStep (h : Host) (u : Locals) : P (Armator.armStep h u) := by
  have hexecute : P (armExecuteInstruction h u) :=
    hP.bind (hP.fetch u.instr) fun fetch => hP.executeFetched h u _ fetch.2
  exact hP.bind hexecute fun _ =>
    hP.ite (hP.bind (hP.exception _) fun _ => hP.pure _) (hP.pure _)

end AccessProperty

end Armator
