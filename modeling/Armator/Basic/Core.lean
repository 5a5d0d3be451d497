import Armator.Basic.Memory
import Armator.Basic.Registers
import Armator.Lib.Logged

set_option autoImplicit false

/-! # The processor state and its traced accesses (`arm_core.c`, `arm_exception.c`)

The functions of `arm_core.c` are programs over `ArmCore` (`Lib/Logged.lean`). Their events
are the calls they make to `trace_register` and `trace_memory`, with the arguments of the
call, and the calls of `arm_exception`. The `_runs` lemmas give, for each function, its
result, the state it leaves and its `visible` events: those that are not register traces.
-/

namespace Armator

open Logged

/-- `struct arm_core_data` -/
structure ArmCore where
  cycleCount : BitVec 32
  reg : Registers
  mem : Memory

/-- The access types `WRITE` and `READ` of `trace.h`. -/
inductive Access
  | write
  | read
deriving DecidableEq

/-- The access causes `OTHER_ACCESS` and `OPCODE_FETCH` of `trace.h`. -/
inductive Cause
  | otherAccess
  | opcodeFetch
deriving DecidableEq

/-- A call of `trace_register`, `trace_memory` or `arm_exception`. -/
inductive Event
  | register (cycle : BitVec 32) (type : Access) (reg : Nat) (mode : BitVec 8)
      (value : BitVec 32)
  | memory (cycle : BitVec 32) (type : Access) (size : Nat) (cause : Cause)
      (address value : BitVec 32)
  | exception (exception : BitVec 8)
deriving DecidableEq

abbrev ArmM := LogM ArmCore Event

/-- The register numbers under which `trace.h` reports the status registers. -/
def CPSR : Nat := 16
def SPSR : Nat := 17

def traceRegister (cycle : BitVec 32) (type : Access) (reg : Nat) (mode : BitVec 8)
    (value : BitVec 32) : ArmM Unit :=
  emit (.register cycle type reg mode value)

def traceMemory (cycle : BitVec 32) (type : Access) (size : Nat) (cause : Cause)
    (address value : BitVec 32) : ArmM Unit :=
  emit (.memory cycle type size cause address value)

/-! ## Register accesses -/

def armReadRegister (reg : Nat) : ArmM (BitVec 32) := do
  let p ← getState
  let value := readRegister p.reg reg
  let value := if reg = 15 then (value + 4) &&& 0xFFFFFFFD else value
  traceRegister p.cycleCount .read reg (getMode p.reg) value
  return value

def armReadUsrRegister (reg : Nat) : ArmM (BitVec 32) := do
  let p ← getState
  let value := readUsrRegister p.reg reg
  let value := if reg = 15 then (value + 4) &&& 0xFFFFFFFD else value
  traceRegister p.cycleCount .read reg USR value
  return value

def armReadCpsr : ArmM (BitVec 32) := do
  let p ← getState
  let value := readCpsr p.reg
  traceRegister p.cycleCount .read CPSR 0 value
  return value

def armWriteRegister (reg : Nat) (value : BitVec 32) : ArmM Unit := do
  modifyState fun p => { p with reg := writeRegister p.reg reg value }
  let p ← getState
  traceRegister p.cycleCount .write reg (getMode p.reg) value

def armWriteUsrRegister (reg : Nat) (value : BitVec 32) : ArmM Unit := do
  modifyState fun p => { p with reg := writeUsrRegister p.reg reg value }
  let p ← getState
  traceRegister p.cycleCount .write reg USR value

def armWriteCpsr (value : BitVec 32) : ArmM Unit := do
  modifyState fun p => { p with reg := writeCpsr p.reg value }
  let p ← getState
  traceRegister p.cycleCount .write CPSR 0 value

/-! ## Memory accesses

`value` is the content of the caller's output variable before the call. -/

def armFetch (value : BitVec 32) : ArmM (Int × BitVec 32) := do
  modifyState fun p => { p with cycleCount := p.cycleCount + 1 }
  let address := (← armReadRegister 15) - 4
  let p ← getState
  let result := memoryReadWord p.mem address value
  traceMemory p.cycleCount .read 4 .opcodeFetch address result.2
  armWriteRegister 15 (address + 4)
  return result

def armReadByte (address : BitVec 32) (value : BitVec 8) : ArmM (Int × BitVec 8) := do
  let p ← getState
  let result := memoryReadByte p.mem address value
  traceMemory p.cycleCount .read 1 .otherAccess address (result.2.setWidth 32)
  return result

def armReadWord (address : BitVec 32) (value : BitVec 32) : ArmM (Int × BitVec 32) := do
  let p ← getState
  let result := memoryReadWord p.mem address value
  traceMemory p.cycleCount .read 4 .otherAccess address result.2
  return result

def armWriteByte (address : BitVec 32) (value : BitVec 8) : ArmM Int := do
  let p ← getState
  let result := memoryWriteByte p.mem address value
  modifyState fun p => { p with mem := result.2 }
  traceMemory p.cycleCount .write 1 .otherAccess address (value.setWidth 32)
  return result.1

def armWriteWord (address : BitVec 32) (value : BitVec 32) : ArmM Int := do
  let p ← getState
  let result := memoryWriteWord p.mem address value
  modifyState fun p => { p with mem := result.2 }
  traceMemory p.cycleCount .write 4 .otherAccess address value
  return result.1

/-! ## `arm_exception.c` -/

def CP15_reg1_EEbit : BitVec 32 := 0
def Exception_bit_9 : BitVec 32 := CP15_reg1_EEbit <<< 9

def armException (exception : BitVec 8) : ArmM Unit := do
  emit (.exception exception)
  if (exception.toNat : Int) = RESET then
    armWriteCpsr (0x1d3 ||| Exception_bit_9)
    armWriteUsrRegister 15 0

/-- `storage` and `cycleCount` are the contents of the freshly allocated blocks. -/
def armCreate (mem : Memory) (storage : Nat → BitVec 32) (cycleCount : BitVec 32) : ArmCore :=
  let p : ArmCore := { cycleCount := cycleCount, reg := registersCreate storage, mem := mem }
  let p := (armException (BitVec.ofInt 8 RESET) p).state
  { p with cycleCount := 0 }

/-! ## What the accesses do -/

/-- The value an instruction reads from a register: the pc is read with a bias of 4. -/
def ArmCore.regValue (c : ArmCore) (reg : Nat) : BitVec 32 :=
  if reg = 15 then (c.reg.rData 15 + 4) &&& 0xFFFFFFFD else c.reg.rData reg

def ArmCore.cpsr (c : ArmCore) : BitVec 32 := c.reg.rData 16

def ArmCore.setReg (c : ArmCore) (reg : Nat) (value : BitVec 32) : ArmCore :=
  { c with reg := writeRegister c.reg reg value }

/-- The address the next fetch reads. -/
def ArmCore.fetchAddress (c : ArmCore) : BitVec 32 := c.regValue 15 - 4

/-- The state after the fetch. -/
def ArmCore.fetched (c : ArmCore) : ArmCore :=
  { c with cycleCount := c.cycleCount + 1 }.setReg 15 (c.fetchAddress + 4)

theorem ArmCore.setReg_same (c : ArmCore) (reg : Nat) (value : BitVec 32) :
    (c.setReg reg value).reg.rData reg = value := by
  simp [setReg, writeRegister]

theorem ArmCore.setReg_of_ne (c : ArmCore) {reg r : Nat} (h : r ≠ reg) (value : BitVec 32) :
    (c.setReg reg value).reg.rData r = c.reg.rData r := by
  simp [setReg, writeRegister, h]

@[simp] theorem ArmCore.setReg_mem (c : ArmCore) (reg : Nat) (value : BitVec 32) :
    (c.setReg reg value).mem = c.mem := rfl

@[simp] theorem ArmCore.setReg_cycleCount (c : ArmCore) (reg : Nat) (value : BitVec 32) :
    (c.setReg reg value).cycleCount = c.cycleCount := rfl

@[simp] theorem ArmCore.fetched_mem (c : ArmCore) : c.fetched.mem = c.mem := rfl

@[simp] theorem ArmCore.fetched_cycleCount (c : ArmCore) :
    c.fetched.cycleCount = c.cycleCount + 1 := rfl

theorem ArmCore.fetched_of_ne (c : ArmCore) {r : Nat} (h : r ≠ 15) :
    c.fetched.reg.rData r = c.reg.rData r := by
  simp [fetched, setReg, writeRegister, h]

theorem ArmCore.fetched_pc (c : ArmCore) : c.fetched.reg.rData 15 = c.fetchAddress + 4 := by
  simp [fetched, setReg, writeRegister]

@[simp] theorem ArmCore.fetched_cpsr (c : ArmCore) : c.fetched.cpsr = c.cpsr :=
  c.fetched_of_ne (by decide)

/-- The events other than register traces. -/
def visible : Event → Bool
  | .register .. => false
  | .memory .. => true
  | .exception .. => true

theorem traceRegister_runs (cycle : BitVec 32) (type : Access) (reg : Nat) (mode : BitVec 8)
    (value : BitVec 32) (c : ArmCore) :
    Runs visible (traceRegister cycle type reg mode value) c () c [] :=
  Runs.emit_hidden c rfl

theorem traceMemory_runs (cycle : BitVec 32) (type : Access) (size : Nat) (cause : Cause)
    (address value : BitVec 32) (c : ArmCore) :
    Runs visible (traceMemory cycle type size cause address value) c () c
      [.memory cycle type size cause address value] :=
  Runs.emit_kept c rfl

theorem armReadRegister_runs (reg : Nat) (c : ArmCore) :
    Runs visible (armReadRegister reg) c (c.regValue reg) c [] := by
  refine (Runs.getState _ c).bind ((traceRegister_runs _ _ _ _ _ c).bind ?_)
  have hvalue : c.regValue reg
      = if reg = 15 then (readRegister c.reg reg + 4) &&& 0xFFFFFFFD
        else readRegister c.reg reg := by
    by_cases h : reg = 15
    · subst h; rfl
    · simp [ArmCore.regValue, h, readRegister]
  rw [hvalue]
  exact Runs.pure _ _ c

theorem armReadCpsr_runs (c : ArmCore) : Runs visible armReadCpsr c c.cpsr c [] :=
  (Runs.getState _ c).bind ((traceRegister_runs _ _ _ _ _ c).bind (Runs.pure _ _ c))

theorem armWriteRegister_runs (reg : Nat) (value : BitVec 32) (c : ArmCore) :
    Runs visible (armWriteRegister reg value) c () (c.setReg reg value) [] :=
  (Runs.modifyState _ _ c).bind ((Runs.getState _ _).bind (traceRegister_runs _ _ _ _ _ _))

theorem armWriteCpsr_runs (value : BitVec 32) (c : ArmCore) :
    Runs visible (armWriteCpsr value) c () (c.setReg 16 value) [] :=
  (Runs.modifyState _ _ c).bind ((Runs.getState _ _).bind (traceRegister_runs _ _ _ _ _ _))

theorem armFetch_runs (value : BitVec 32) (c : ArmCore) :
    Runs visible (armFetch value) c (memoryReadWord c.mem c.fetchAddress value) c.fetched
      [.memory (c.cycleCount + 1) .read 4 .opcodeFetch c.fetchAddress
        (memoryReadWord c.mem c.fetchAddress value).2] :=
  (Runs.modifyState _ _ c).quietBind <| (armReadRegister_runs 15 _).quietBind <|
    (Runs.getState _ _).quietBind <| (traceMemory_runs _ _ _ _ _ _ _).bind <|
      (armWriteRegister_runs 15 _ _).quietBind (Runs.pure _ _ _)

theorem armReadByte_runs (address : BitVec 32) (value : BitVec 8) (c : ArmCore) :
    Runs visible (armReadByte address value) c (memoryReadByte c.mem address value) c
      [.memory c.cycleCount .read 1 .otherAccess address
        ((memoryReadByte c.mem address value).2.setWidth 32)] :=
  (Runs.getState _ c).quietBind ((traceMemory_runs _ _ _ _ _ _ c).bind (Runs.pure _ _ c))

theorem armReadWord_runs (address : BitVec 32) (value : BitVec 32) (c : ArmCore) :
    Runs visible (armReadWord address value) c (memoryReadWord c.mem address value) c
      [.memory c.cycleCount .read 4 .otherAccess address
        (memoryReadWord c.mem address value).2] :=
  (Runs.getState _ c).quietBind ((traceMemory_runs _ _ _ _ _ _ c).bind (Runs.pure _ _ c))

theorem armWriteByte_runs (address : BitVec 32) (value : BitVec 8) (c : ArmCore) :
    Runs visible (armWriteByte address value) c 0
      { c with mem := (memoryWriteByte c.mem address value).2 }
      [.memory c.cycleCount .write 1 .otherAccess address (value.setWidth 32)] :=
  (Runs.getState _ c).quietBind <| (Runs.modifyState _ _ c).quietBind <|
    (traceMemory_runs _ _ _ _ _ _ _).bind (Runs.pure _ _ _)

theorem memoryWriteWord_status (mem : Memory) (address value : BitVec 32) :
    (memoryWriteWord mem address value).1 = 0 := by
  unfold memoryWriteWord
  split <;> rfl

theorem armWriteWord_runs (address : BitVec 32) (value : BitVec 32) (c : ArmCore) :
    Runs visible (armWriteWord address value) c 0
      { c with mem := (memoryWriteWord c.mem address value).2 }
      [.memory c.cycleCount .write 4 .otherAccess address value] := by
  refine (Runs.getState _ c).quietBind <| (Runs.modifyState _ _ c).quietBind <|
    (traceMemory_runs _ _ _ _ _ _ _).bind ?_
  rw [memoryWriteWord_status]
  exact Runs.pure _ _ _

/-- The user-bank write of the pc that follows the CPSR write is refused, because the mode
is then SVC, a privileged one: RESET leaves `r15` as it was. -/
theorem armException_reset_runs (c : ArmCore) :
    Runs visible (armException (BitVec.ofInt 8 RESET)) c () (c.setReg 16 0x1d3)
      [.exception (BitVec.ofInt 8 RESET)] := by
  refine (Runs.emit_kept c rfl).bind ?_
  rw [if_pos (by decide)]
  have hcpsr : Runs visible (armWriteCpsr (0x1d3 ||| Exception_bit_9)) c ()
      (c.setReg 16 0x1d3) [] := armWriteCpsr_runs 0x1d3 c
  -- the mode is SVC by now, so the user-bank write finds a privileged mode
  have husr : writeUsrRegister (c.setReg 16 0x1d3).reg 15 0 = (c.setReg 16 0x1d3).reg := by
    have hmode : inAPrivilegedMode (c.setReg 16 0x1d3).reg = true := by
      simp [inAPrivilegedMode, getMode, ArmCore.setReg_same, USR]
    rw [writeUsrRegister, hmode]
    rfl
  have hpc : Runs visible (armWriteUsrRegister 15 0) (c.setReg 16 0x1d3) ()
      { c.setReg 16 0x1d3 with reg := writeUsrRegister (c.setReg 16 0x1d3).reg 15 0 } [] :=
    (Runs.modifyState _ _ _).bind ((Runs.getState _ _).bind (traceRegister_runs _ _ _ _ _ _))
  rw [husr] at hpc
  exact hcpsr.bind hpc

/-! ## Programs made of accesses -/

/-- A property of programs that goes through sequences, and that reads of registers have. -/
structure ReadProperty (P : {α : Type} → ArmM α → Prop) : Prop extends Sequential P where
  readRegister : ∀ reg, P (armReadRegister reg)
  readCpsr : P armReadCpsr

/-- A property of programs that goes through sequences, and that the accesses have. -/
structure AccessProperty (P : {α : Type} → ArmM α → Prop) : Prop extends ReadProperty P where
  writeRegister : ∀ reg value, P (armWriteRegister reg value)
  fetch : ∀ value, P (armFetch value)
  readByte : ∀ address value, P (armReadByte address value)
  readWord : ∀ address value, P (armReadWord address value)
  writeByte : ∀ address value, P (armWriteByte address value)
  writeWord : ∀ address value, P (armWriteWord address value)
  exception : ∀ exception, P (armException exception)

/-- Reads of registers change nothing. -/
theorem quiet_reads : ReadProperty fun {_} m => Quiet visible m :=
  { sequential_quiet visible with
    readRegister := fun reg => Quiet.of_runs (armReadRegister_runs reg)
    readCpsr := Quiet.of_runs armReadCpsr_runs }

end Armator
