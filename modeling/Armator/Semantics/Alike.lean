import Armator.Lib.Blind
import Armator.Semantics.Run

set_option autoImplicit false

/-! # Processors that cannot be told apart

Two processors with the same memory may count their cycles differently, and hold different pcs if
these are read alike. The program does the same on both (`alike_after`).
-/

namespace Armator

open Logged

/-- The same memory, and registers that are read alike. -/
structure Alike (c c' : ArmCore) : Prop where
  mem : c'.mem = c.mem
  reg : ∀ r, c'.regValue r = c.regValue r

/-- The event without its cycle. -/
def Event.timeless : Event → Event
  | .memory _ type size cause address value => .memory 0 type size cause address value
  | .register _ type reg mode value => .register 0 type reg mode value
  | .exception irq => .exception irq

/-- Calls that differ in the cycle at most. -/
def Event.Repeats (e e' : Event) : Prop := e'.timeless = e.timeless

section

variable {c c' : ArmCore}

theorem ArmCore.regValue_setReg (c : ArmCore) (reg : Nat) (value : BitVec 32) (r : Nat) :
    (c.setReg reg value).regValue r
      = if r = reg then if r = 15 then (value + 4) &&& 0xFFFFFFFD else value else c.regValue r := by
  by_cases hr : r = reg
  · subst hr
    rw [if_pos rfl]
    by_cases h15 : r = 15
    · subst h15
      rw [if_pos rfl, regValue, if_pos rfl, setReg_same]
    · rw [if_neg h15, regValue, if_neg h15, setReg_same]
  · rw [if_neg hr]
    by_cases h15 : r = 15
    · subst h15
      rw [regValue, regValue, if_pos rfl, if_pos rfl, setReg_of_ne c hr]
    · rw [regValue, regValue, if_neg h15, if_neg h15, setReg_of_ne c hr]

namespace Alike

theorem mode (h : Alike c c') : getMode c'.reg = getMode c.reg := by
  have hcpsr : c'.reg.rData 16 = c.reg.rData 16 := h.reg 16
  rw [getMode, getMode, hcpsr]

theorem fetchAddress (h : Alike c c') : c'.fetchAddress = c.fetchAddress := by
  rw [ArmCore.fetchAddress, ArmCore.fetchAddress, h.reg]

theorem setReg (h : Alike c c') (reg : Nat) (value : BitVec 32) :
    Alike (c.setReg reg value) (c'.setReg reg value) := by
  refine ⟨h.mem, fun r => ?_⟩
  rw [ArmCore.regValue_setReg, ArmCore.regValue_setReg, h.reg]

theorem withMem (h : Alike c c') (mem : Memory) :
    Alike { c with mem := mem } { c' with mem := mem } := ⟨rfl, h.reg⟩

theorem fetched (h : Alike c c') : Alike c.fetched c'.fetched := by
  have hcount : Alike { c with cycleCount := c.cycleCount + 1 }
      { c' with cycleCount := c'.cycleCount + 1 } := ⟨h.mem, h.reg⟩
  rw [ArmCore.fetched, ArmCore.fetched, h.fetchAddress]
  exact hcount.setReg 15 _

end Alike

/-! ## Accesses -/

section

variable {α : Type}

/-- The program does the same on processors that are alike. -/
def Unaware (m : ArmM α) : Prop := Blind Alike Event.Repeats (fun _ => True) m

end

theorem armReadRegister_unaware (reg : Nat) : Unaware (armReadRegister reg) := by
  intro c c' h _
  have hvalue : (armReadRegister reg c').value = (armReadRegister reg c).value := by
    rw [(armReadRegister_runs reg c').value, (armReadRegister_runs reg c).value, h.reg]
  refine ⟨hvalue, h, .cons ?_ .nil⟩
  show Event.register 0 .read reg (getMode c'.reg) (armReadRegister reg c').value
    = Event.register 0 .read reg (getMode c.reg) (armReadRegister reg c).value
  rw [h.mode, hvalue]

theorem armReadCpsr_unaware : Unaware armReadCpsr := by
  intro c c' h _
  refine ⟨h.reg 16, h, .cons ?_ .nil⟩
  exact congrArg (Event.register 0 .read CPSR 0) (h.reg 16)

theorem armWriteRegister_unaware (reg : Nat) (value : BitVec 32) :
    Unaware (armWriteRegister reg value) := by
  intro c c' h _
  have hset := h.setReg reg value
  exact ⟨rfl, hset, .cons (congrArg (Event.register 0 .write reg · value) hset.mode) .nil⟩

theorem armWriteCpsr_unaware (value : BitVec 32) : Unaware (armWriteCpsr value) :=
  fun _ _ h _ => ⟨rfl, h.setReg 16 value, .cons rfl .nil⟩

theorem armWriteUsrRegister_unaware (reg : Nat) (value : BitVec 32) :
    Unaware (armWriteUsrRegister reg value) := by
  intro c c' h _
  refine ⟨rfl, ?_, .cons rfl .nil⟩
  show Alike { c with reg := writeUsrRegister c.reg reg value }
    { c' with reg := writeUsrRegister c'.reg reg value }
  rw [writeUsrRegister, writeUsrRegister, inAPrivilegedMode, inAPrivilegedMode, h.mode]
  split
  · exact h.setReg reg value
  · exact h

theorem armReadByte_unaware (address : BitVec 32) (value : BitVec 8) :
    Unaware (armReadByte address value) := by
  intro c c' h _
  have hread : memoryReadByte c'.mem address value = memoryReadByte c.mem address value := by
    rw [h.mem]
  exact ⟨hread, h, .cons (congrArg (fun r : Int × BitVec 8 =>
    Event.memory 0 .read 1 .otherAccess address (r.2.setWidth 32)) hread) .nil⟩

theorem armReadWord_unaware (address value : BitVec 32) : Unaware (armReadWord address value) := by
  intro c c' h _
  have hread : memoryReadWord c'.mem address value = memoryReadWord c.mem address value := by
    rw [h.mem]
  exact ⟨hread, h, .cons (congrArg (fun r : Int × BitVec 32 =>
    Event.memory 0 .read 4 .otherAccess address r.2) hread) .nil⟩

theorem armWriteByte_unaware (address : BitVec 32) (value : BitVec 8) :
    Unaware (armWriteByte address value) := by
  intro c c' h _
  have hwrite : memoryWriteByte c'.mem address value = memoryWriteByte c.mem address value := by
    rw [h.mem]
  refine ⟨congrArg Prod.fst hwrite, ?_, .cons rfl .nil⟩
  show Alike { c with mem := (memoryWriteByte c.mem address value).2 }
    { c' with mem := (memoryWriteByte c'.mem address value).2 }
  rw [hwrite]
  exact h.withMem _

theorem armWriteWord_unaware (address value : BitVec 32) :
    Unaware (armWriteWord address value) := by
  intro c c' h _
  have hwrite : memoryWriteWord c'.mem address value = memoryWriteWord c.mem address value := by
    rw [h.mem]
  refine ⟨congrArg Prod.fst hwrite, ?_, .cons rfl .nil⟩
  show Alike { c with mem := (memoryWriteWord c.mem address value).2 }
    { c' with mem := (memoryWriteWord c'.mem address value).2 }
  rw [hwrite]
  exact h.withMem _

theorem armFetch_unaware (value : BitVec 32) : Unaware (armFetch value) := by
  intro c c' h _
  have hread : memoryReadWord c'.mem c'.fetchAddress value
      = memoryReadWord c.mem c.fetchAddress value := by
    rw [h.mem, h.fetchAddress]
  refine ⟨hread, h.fetched, .cons ?_ (.cons ?_ (.cons ?_ .nil))⟩
  · show Event.register 0 .read 15 (getMode c'.reg) (c'.regValue 15)
      = Event.register 0 .read 15 (getMode c.reg) (c.regValue 15)
    rw [h.mode, h.reg]
  · show Event.memory 0 .read 4 .opcodeFetch c'.fetchAddress
        (memoryReadWord c'.mem c'.fetchAddress value).2
      = Event.memory 0 .read 4 .opcodeFetch c.fetchAddress
        (memoryReadWord c.mem c.fetchAddress value).2
    rw [hread, h.fetchAddress]
  · show Event.register 0 .write 15 (getMode c'.fetched.reg) (c'.fetchAddress + 4)
      = Event.register 0 .write 15 (getMode c.fetched.reg) (c.fetchAddress + 4)
    rw [h.fetched.mode, h.fetchAddress]

theorem sequential_unaware : Sequential @Unaware := sequential_blind Alike fun _ => True

theorem armException_unaware (exception : BitVec 8) : Unaware (armException exception) := by
  have hemit : Unaware (emit (.exception exception)) := Blind.emit rfl
  exact sequential_unaware.bind hemit fun _ => sequential_unaware.ite
    (sequential_unaware.bind (armWriteCpsr_unaware _) fun _ => armWriteUsrRegister_unaware 15 0)
    (sequential_unaware.pure ())

theorem unaware_accesses : AccessProperty @Unaware :=
  { sequential_unaware with
    readRegister := armReadRegister_unaware
    readCpsr := armReadCpsr_unaware
    writeRegister := armWriteRegister_unaware
    fetch := armFetch_unaware
    readByte := armReadByte_unaware
    readWord := armReadWord_unaware
    writeByte := armWriteByte_unaware
    writeWord := armWriteWord_unaware
    exception := armException_unaware }

/-! ## Runs -/

/-- **Steps keep processors alike.** -/
theorem alike_after (h : Host) (us : Nat → Locals) (halike : Alike c c') (n : Nat) :
    Alike (c.after h us n) (c'.after h us n) := by
  induction n with
  | zero => exact halike
  | succ n ih =>
      exact (unaware_accesses.armStep h (us n) _ _ ih fun _ _ => trivial).state

theorem alike_stepState (h : Host) (u : Locals) (halike : Alike c c') :
    Alike (stepState h u c) (stepState h u c') := by
  rw [← armStep_state, ← armStep_state]
  exact (unaware_accesses.armStep h u _ _ halike fun _ _ => trivial).state

end

end Armator
