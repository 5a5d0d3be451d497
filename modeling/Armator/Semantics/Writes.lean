import Armator.Instr.Step

set_option autoImplicit false

/-! # What an instruction writes

An abstract semantics of `arm_step`: a decoded word is a list of writes, computed from the
state after the fetch and then applied to it. `armStep_runs` is the refinement theorem: the
translated `arm_step` returns 0, applies exactly `stepWrites`, and makes exactly the data
accesses `stepAccesses`. What holds of every step is proved from it, without unfolding the
dispatcher again.
-/

namespace Armator

open Logged

/-- One write to the machine. -/
inductive Write
  | reg (r : Nat) (value : BitVec 32)
  | word (address value : BitVec 32)
  | byte (address : BitVec 32) (value : BitVec 8)

def Write.apply (c : ArmCore) : Write → ArmCore
  | .reg r value => c.setReg r value
  | .word address value => { c with mem := (memoryWriteWord c.mem address value).2 }
  | .byte address value => { c with mem := (memoryWriteByte c.mem address value).2 }

def applyWrites (ws : List Write) (c : ArmCore) : ArmCore := ws.foldl Write.apply c

@[simp] theorem applyWrites_nil (c : ArmCore) : applyWrites [] c = c := rfl

@[simp] theorem applyWrites_cons (w : Write) (ws : List Write) (c : ArmCore) :
    applyWrites (w :: ws) c = applyWrites ws (w.apply c) := rfl

/-! ## Data processing -/

/-- What the opcode `switch` stores in Rd, for the operands `n` and `m` and the carry flag;
nothing for the comparison opcodes. -/
def aluResult (opcode : Nat) (n m carry : BitVec 32) : Option (BitVec 32) :=
  match opcode with
  | 0b0000 => some (n &&& m)
  | 0b0001 => some (n ^^^ m)
  | 0b0010 => some (n - m)
  | 0b0011 => some (m - n)
  | 0b0100 => some (n + m)
  | 0b0101 => some (n + m + carry)
  | 0b0110 => some (n - m - cNot carry)
  | 0b0111 => some (m - n - cNot carry)
  | 0b1000 | 0b1001 | 0b1010 | 0b1011 => none
  | 0b1100 => some (n ||| m)
  | 0b1101 => some m
  | 0b1110 => some (n &&& cNot m)
  | _ => some (cNot m)

def dataProcessingWrites (opcode : Nat) (n m carry : BitVec 32) (rd : Nat) : List Write :=
  (aluResult opcode n m carry).toList.map (Write.reg rd)

/-- A result that goes to Rd before the flags are looked at. -/
theorem writeThenFlags_runs (h : Host) (rd : Nat) (x : BitVec 32) (c : ArmCore) :
    Runs visible (do
        armWriteRegister rd ((x.setWidth 64).setWidth 32)
        updateFlag h (x.setWidth 64) : ArmM Unit)
      c () (applyWrites [.reg rd x] c) [] := by
  rw [BitVec.setWidth_setWidth_of_le x (by decide), BitVec.setWidth_eq]
  exact (armWriteRegister_runs rd x c).bind (quiet_reads.updateFlag h _ _)

theorem dataProcessing_runs (h : Host) (opcode n m shifterCarryOut : BitVec 32) (rd : Nat)
    (c : ArmCore) :
    Runs visible (dataProcessing h opcode n m shifterCarryOut rd) c ()
      (applyWrites (dataProcessingWrites opcode.toNat n m (getBit c.cpsr C) rd) c) [] := by
  unfold dataProcessing dataProcessingWrites
  generalize opcode.toNat = k
  match k with
  | 0 | 1 | 2 | 3 | 4 => exact writeThenFlags_runs h rd _ c
  | 5 | 6 | 7 => exact (armReadCpsr_runs c).bind (writeThenFlags_runs h rd _ c)
  | 8 | 9 => exact quiet_reads.testFlags _ _ _ c
  | 10 | 11 => exact quiet_reads.compareFlags h _ _ _ c
  -- ORR looks at the flags before it writes
  | 12 =>
      have hw := armWriteRegister_runs rd (((n ||| m).setWidth 64).setWidth 32) c
      rw [BitVec.setWidth_setWidth_of_le (n ||| m) (by decide), BitVec.setWidth_eq] at hw
      refine (quiet_reads.updateFlag h _ c).bind ?_
      rw [BitVec.setWidth_setWidth_of_le (n ||| m) (by decide), BitVec.setWidth_eq]
      exact hw
  | 13 => exact armWriteRegister_runs rd _ c
  | 14 => exact writeThenFlags_runs h rd _ c
  | _ + 15 => exact armWriteRegister_runs rd _ c

/-! ## Loads, stores and branches -/

/-- The return value of a word read, as the `uint32_t` its callers convert it to. -/
def Memory.wordResult (mem : Memory) (address : BitVec 32) : BitVec 32 :=
  BitVec.ofInt 32 (memoryReadWord mem address 0).1

/-- The return value of a byte read, as the `uint8_t` LDRB converts it to. -/
def Memory.byteResult (mem : Memory) (address : BitVec 32) : BitVec 8 :=
  BitVec.ofInt 8 (memoryReadByte mem address 0).1

theorem memoryReadWord_status (mem : Memory) (address value value' : BitVec 32) :
    (memoryReadWord mem address value).1 = (memoryReadWord mem address value').1 := by
  unfold memoryReadWord
  split
  · split <;> rfl
  · rfl

theorem memoryReadByte_status (mem : Memory) (address : BitVec 32) (value value' : BitVec 8) :
    (memoryReadByte mem address value).1 = (memoryReadByte mem address value').1 := by
  unfold memoryReadByte
  split <;> rfl

theorem Memory.wordResult_eq (mem : Memory) (address value : BitVec 32) :
    BitVec.ofInt 32 (memoryReadWord mem address value).1 = mem.wordResult address := by
  rw [wordResult, memoryReadWord_status mem address value 0]

theorem Memory.byteResult_eq (mem : Memory) (address : BitVec 32) (value : BitVec 8) :
    BitVec.ofInt 8 (memoryReadByte mem address value).1 = mem.byteResult address := by
  rw [byteResult, memoryReadByte_status mem address value 0]

/-- The datum LDR writes to Rd. -/
def loadedWord (h : Host) (mem : Memory) (address : BitVec 32) (rd : Nat) : BitVec 32 :=
  let data := ror h (mem.wordResult address) ((8 * getBits address 1 0).setWidth 8)
  if rd = 15 then data &&& 0xFFFFFFFE else data

def loadStoreWrites (h : Host) (mem : Memory) (address rdValue bit20 bit22 : BitVec 32)
    (rd : Nat) : List Write :=
  if bit20 = 0 ∧ bit22 = 0 then [.word address rdValue]
  else if bit20 = 0 ∧ bit22 ≠ 0 then [.byte address ((getBits rdValue 7 0).setWidth 8)]
  else if bit20 ≠ 0 ∧ bit22 = 0 then [.reg rd (loadedWord h mem address rd)]
  else [.reg rd ((mem.byteResult address).setWidth 32)]

/-- The memory accesses of a load or store, in order. -/
def loadStoreAccesses (u : Locals) (c : ArmCore) (address rdValue bit20 bit22 : BitVec 32) :
    List Event :=
  if bit20 = 0 ∧ bit22 = 0 then
    [.memory c.cycleCount .write 4 .otherAccess address rdValue,
      .memory c.cycleCount .read 4 .otherAccess address
        (memoryReadWord (memoryWriteWord c.mem address rdValue).2 address u.word).2]
  else if bit20 = 0 ∧ bit22 ≠ 0 then
    let value := (getBits rdValue 7 0).setWidth 8
    [.memory c.cycleCount .write 1 .otherAccess address (value.setWidth 32),
      .memory c.cycleCount .read 1 .otherAccess address
        ((memoryReadByte (memoryWriteByte c.mem address value).2 address u.byte).2.setWidth 32)]
  else if bit20 ≠ 0 ∧ bit22 = 0 then
    [.memory c.cycleCount .read 4 .otherAccess address (memoryReadWord c.mem address u.word).2]
  else
    [.memory c.cycleCount .read 1 .otherAccess address
      ((memoryReadByte c.mem address u.byte).2.setWidth 32)]

theorem loadStoreByteOrWord_runs (h : Host) (u : Locals) (address rdValue bit20 bit22 : BitVec 32)
    (rd : Nat) (c : ArmCore) :
    Runs visible (loadStoreByteOrWord h u address rdValue bit20 bit22 rd) c ()
      (applyWrites (loadStoreWrites h c.mem address rdValue bit20 bit22 rd) c)
      (loadStoreAccesses u c address rdValue bit20 bit22) := by
  unfold loadStoreByteOrWord loadStoreWrites loadStoreAccesses
  -- STR, STRB, LDR (with its test for the pc), LDRB
  split
  · exact (armWriteWord_runs address rdValue c).bind <|
      (armReadWord_runs address u.word _).bind (Runs.pure _ _ _)
  · split
    · exact (armWriteByte_runs address _ c).bind <|
        (armReadByte_runs address u.byte _).bind (Runs.pure _ _ _)
    · split
      · refine (armReadWord_runs address u.word c).bind (Runs.ite (fun hrd => ?_) fun hrd => ?_)
        · rw [Memory.wordResult_eq, loadedWord, if_pos hrd]
          exact armWriteRegister_runs rd _ c
        · rw [Memory.wordResult_eq, loadedWord, if_neg hrd]
          exact armWriteRegister_runs rd _ c
      · refine (armReadByte_runs address u.byte c).bind ?_
        rw [Memory.byteResult_eq]
        exact armWriteRegister_runs rd _ c

/-- The stored pc after a taken branch. -/
def branchTarget (ins : BitVec 32) (c : ArmCore) : BitVec 32 :=
  c.regValue 15 + extend30 ins <<< 2

def branchWrites (ins : BitVec 32) (c : ArmCore) : List Write :=
  if getBit ins 24 = 0 then [.reg 15 (branchTarget ins c)]
  else [.reg 14 (c.regValue 15), .reg 15 (branchTarget ins c)]

theorem armBranch_runs (ins : BitVec 32) (c : ArmCore) :
    Runs visible (armBranch ins) c 0 (applyWrites (branchWrites ins c) c) [] := by
  unfold armBranch branchWrites
  split
  · exact (armReadRegister_runs 15 c).bind <|
      (armWriteRegister_runs 15 _ c).bind (Runs.pure _ _ _)
  · exact (armReadRegister_runs 15 c).bind <| (armWriteRegister_runs 14 _ c).bind <|
      (armReadRegister_runs 15 _).bind <| (armWriteRegister_runs 15 _ _).bind (Runs.pure _ _ _)

/-! ## The dispatcher -/

/-- Opcode 10xx with S = 0. -/
def isMiscellaneous (w : BitVec 32) : Prop := getBits w 24 23 = 0b10 ∧ getBit w 20 = 0

instance (w : BitVec 32) : Decidable (isMiscellaneous w) :=
  inferInstanceAs (Decidable (_ ∧ _))

/-- The registers named by the fields of a word. -/
def rnField (w : BitVec 32) : Nat := (getBits w 19 16).toNat
def rdField (w : BitVec 32) : Nat := (getBits w 15 12).toNat

/-- The value of `operand2` in the state `c`. -/
def operandValue (h : Host) (u : Locals) (w : BitVec 32) (c : ArmCore) : BitVec 32 :=
  (dataProcessingOperand h u w c).value.1

/-- The writes of the word `w` when its condition is taken, `c` being the state after the
fetch. -/
def executedWrites (h : Host) (u : Locals) (w : BitVec 32) (c : ArmCore) : List Write :=
  match (getBits w 27 26).toNat with
  | 0b00 =>
    if isMiscellaneous w then []
    else dataProcessingWrites (getBits w 24 21).toNat (c.regValue (rnField w))
      (operandValue h u w c) (getBit c.cpsr C) (rdField w)
  | 0b01 => loadStoreWrites h c.mem (armLoadStore h w) (c.regValue (rdField w)) (getBit w 20)
      (getBit w 22) (rdField w)
  | 0b10 => if getBit w 25 = 0 then [] else branchWrites w c
  | _ => []

/-- The data accesses of the word `w` when its condition is taken. -/
def executedAccesses (h : Host) (u : Locals) (w : BitVec 32) (c : ArmCore) : List Event :=
  match (getBits w 27 26).toNat with
  | 0b01 => loadStoreAccesses u c (armLoadStore h w) (c.regValue (rdField w)) (getBit w 20)
      (getBit w 22)
  | _ => []

/-- The value of `ConditionPassed` for the condition field of `w`. -/
def conditionOf (u : Locals) (w : BitVec 32) (c : ArmCore) : Int :=
  conditionValue u ((getBits w 31 28).setWidth 8) c.cpsr

/-- A dispatch arm that asks `ConditionPassed` first. -/
theorem conditional_runs {m : ArmM Int} {c : ArmCore} {ws : List Write} {es : List Event}
    (u : Locals) (w : BitVec 32) (hm : Runs visible m c 0 (applyWrites ws c) es) :
    Runs visible (do
        if (← conditionPassed u ((getBits w 31 28).setWidth 8)) ≠ 0 then m else return 0)
      c 0 (applyWrites (if conditionOf u w c ≠ 0 then ws else []) c)
      (if conditionOf u w c ≠ 0 then es else []) := by
  refine (conditionPassed_runs u _ c).quietBind ?_
  show Runs visible (if conditionOf u w c ≠ 0 then m else Pure.pure 0) _ _ _ _
  by_cases hk : conditionOf u w c ≠ 0
  · simp only [if_pos hk]
    exact hm
  · simp only [if_neg hk]
    exact Runs.pure _ _ _

/-- Without a taken condition nothing happens; the classes that do not ask do nothing anyway. -/
theorem executeFetched_runs (h : Host) (u : Locals) (w : BitVec 32) (c : ArmCore) :
    Runs visible (executeFetched h u w w) c 0
      (applyWrites (if conditionOf u w c ≠ 0 then executedWrites h u w c else []) c)
      (if conditionOf u w c ≠ 0 then executedAccesses h u w c else []) := by
  have hnothing : Runs visible (return 0 : ArmM Int) c 0 c [] := Runs.pure _ _ c
  refine (armReadRegister_runs _ c).quietBind ?_
  unfold executedWrites executedAccesses
  generalize (getBits w 27 26).toNat = bits26_27
  -- one case for each dispatch arm; only the arms that do something ask for the condition
  match bits26_27 with
  | 0 =>
      by_cases hmisc : isMiscellaneous w
      · simp only [if_pos hmisc, ite_self]
        exact Runs.ite (fun _ => hnothing) fun hn => absurd hmisc hn
      · simp only [if_neg hmisc]
        exact Runs.ite (fun hm => absurd hm hmisc) fun _ => conditional_runs u w <|
          (quiet_reads.dataProcessingOperand h u w c).quietBind <|
            (dataProcessing_runs h _ _ _ _ _ c).thenReturn 0
  | 1 =>
      exact conditional_runs u w <| (armReadRegister_runs _ c).quietBind <|
        (loadStoreByteOrWord_runs h u _ _ _ _ _ c).thenReturn 0
  | 2 =>
      by_cases hblock : getBit w 25 = 0
      · simp only [if_pos hblock, ite_self]
        exact hnothing
      · simp only [if_neg hblock]
        have hbranch := conditional_runs u w ((armBranch_runs w c).thenReturn (0 : Int))
        rw [ite_self] at hbranch ⊢
        exact hbranch
  | _ + 3 =>
      simp only [ite_self]
      exact hnothing

/-! ## The step -/

/-- The word the dispatcher decodes: `0xFFFFFFFF` when the fetch fails. -/
def ArmCore.fetchedWord (c : ArmCore) : BitVec 32 := c.mem.wordResult c.fetchAddress

def stepWrites (h : Host) (u : Locals) (c : ArmCore) : List Write :=
  if conditionOf u c.fetchedWord c ≠ 0 then executedWrites h u c.fetchedWord c.fetched else []

def stepAccesses (h : Host) (u : Locals) (c : ArmCore) : List Event :=
  if conditionOf u c.fetchedWord c ≠ 0 then executedAccesses h u c.fetchedWord c.fetched else []

def stepState (h : Host) (u : Locals) (c : ArmCore) : ArmCore :=
  applyWrites (stepWrites h u c) c.fetched

/-- The trace of the fetch. -/
def fetchEvent (u : Locals) (c : ArmCore) : Event :=
  .memory (c.cycleCount + 1) .read 4 .opcodeFetch c.fetchAddress
    (memoryReadWord c.mem c.fetchAddress u.instr).2

/-- A word read that does not fail returns the word it stores. -/
theorem memoryReadWord_result {mem : Memory} {address : BitVec 32}
    (h : address.toNat ≤ mem.size) (value : BitVec 32) :
    BitVec.ofInt 32 (memoryReadWord mem address value).1
      = (memoryReadWord mem address value).2 := by
  unfold memoryReadWord
  rw [if_pos h]
  split <;> exact BitVec.ofInt_toInt

theorem wordResult_of_failure {mem : Memory} {address : BitVec 32}
    (h : ¬ address.toNat ≤ mem.size) : mem.wordResult address = 0xFFFFFFFF := by
  unfold Memory.wordResult memoryReadWord
  rw [if_neg h]
  rfl

/-- A failed fetch decodes to a word of the class that is not implemented. -/
theorem executeFetched_failed_runs (h : Host) (u : Locals) (instr : BitVec 32) (c : ArmCore) :
    Runs visible (executeFetched h u 0xFFFFFFFF instr) c 0 c [] :=
  (armReadRegister_runs _ c).quietBind (Runs.pure _ _ _)

theorem armExecuteInstruction_runs (h : Host) (u : Locals) (c : ArmCore) :
    Runs visible (armExecuteInstruction h u) c 0 (stepState h u c)
      (fetchEvent u c :: stepAccesses h u c) := by
  refine (armFetch_runs u.instr c).bind ?_
  rw [Memory.wordResult_eq]
  unfold stepState stepWrites
  by_cases hread : c.fetchAddress.toNat ≤ c.mem.size
  · -- the returned word and the one stored through the pointer are the same
    have hinstr : (memoryReadWord c.mem c.fetchAddress u.instr).2 = c.fetchedWord := by
      rw [← memoryReadWord_result hread, Memory.wordResult_eq]
      rfl
    rw [hinstr]
    have hrun := executeFetched_runs h u c.fetchedWord c.fetched
    rw [conditionOf, ArmCore.fetched_cpsr] at hrun
    exact hrun
  · have hword : c.fetchedWord = 0xFFFFFFFF := wordResult_of_failure hread
    have hwrites : executedWrites h u 0xFFFFFFFF c.fetched = [] := rfl
    have haccesses : executedAccesses h u 0xFFFFFFFF c.fetched = [] := rfl
    rw [hword, hwrites, haccesses, ite_self, ite_self]
    rw [show c.mem.wordResult c.fetchAddress = 0xFFFFFFFF from hword]
    exact executeFetched_failed_runs h u _ _

/-- **`arm_step` is its write list.** The status is 0 for every word, so `arm_exception` is
never called. -/
theorem armStep_runs (h : Host) (u : Locals) (c : ArmCore) :
    Runs visible (armStep h u) c 0 (stepState h u c) (fetchEvent u c :: stepAccesses h u c) := by
  have hstep := (armExecuteInstruction_runs h u c).bind
    (f := fun result => do
      if result ≠ 0 then
        armException (BitVec.ofInt 8 result)
      return result)
    (Runs.pure _ 0 _)
  rw [List.append_nil] at hstep
  exact hstep

end Armator
