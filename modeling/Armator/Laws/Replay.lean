import Armator.Lib.Replay
import Armator.Semantics.ByteMemory
import Armator.Semantics.Run

set_option autoImplicit false

/-! # The trace of the accesses

The traced writes, replayed on the memory and on r0 to r14, give the memory and r0 to r14 after
any number of steps, and every traced read has the value that the replay has at that point
(`trace_faithful`).
-/

namespace Armator

open Logged LastWrite

/-! ## Reading a trace -/

/-- What a trace tells of the machine: the memory, and r0 to r14. -/
structure Traced where
  mem : Memory
  reg : Fin 15 → BitVec 32

def ArmCore.traced (c : ArmCore) : Traced where
  mem := c.mem
  reg := fun r => c.reg.rData r

/-- The memory after the `size` bytes of `v` are stored in its byte order. -/
def Memory.updated (mem : Memory) (address : BitVec 32) (size v : Nat) : Memory :=
  { mem with address := applyUpdates (byteUpdates mem.isBigEndian address size v) mem.address }

/-- A traced write is carried out. -/
def Traced.apply (t : Traced) : Event → Traced
  | .register _ .write reg _ value =>
      if h : reg < 15 then { t with reg := Function.update t.reg ⟨reg, h⟩ value } else t
  | .memory _ .write size _ address value =>
      { t with mem := t.mem.updated address size value.toNat }
  | _ => t

/-- A traced read has the value that is there. -/
def Traced.Agrees (t : Traced) : Event → Prop
  | .register _ .read reg _ value => ∀ h : reg < 15, value = t.reg ⟨reg, h⟩
  | .memory _ .read size _ address value =>
      t.mem.Inside address size → value.toNat = t.mem.joined address size
  | _ => True

def tracing : Reading Traced Event where
  apply := Traced.apply
  agrees := Traced.Agrees

/-- The trace of `m` tells all that `m` does to the memory and to r0 to r14. -/
def Traces {α : Type} (m : ArmM α) : Prop := Faithful tracing ArmCore.traced m

/-! ## Registers -/

/-- Behind r14 the trace tells nothing of a register. -/
theorem traced_setReg_of_le (c : ArmCore) {reg : Nat} (h : 15 ≤ reg) (value : BitVec 32) :
    (c.setReg reg value).traced = c.traced := by
  refine congrArg (Traced.mk c.mem) (funext fun r => c.setReg_of_ne ?_ value)
  exact Nat.ne_of_lt (lt_of_lt_of_le r.isLt h)

theorem traced_setReg (c : ArmCore) {reg : Nat} (h : reg < 15) (value : BitVec 32) :
    (c.setReg reg value).traced
      = { c.traced with reg := Function.update c.traced.reg ⟨reg, h⟩ value } := by
  refine congrArg (Traced.mk c.mem) (funext fun r => ?_)
  by_cases hr : r = ⟨reg, h⟩
  · subst hr
    rw [Function.update_self]
    exact c.setReg_same reg value
  · rw [Function.update_of_ne hr]
    exact c.setReg_of_ne (fun heq => hr (Fin.ext heq)) value

theorem apply_registerWrite (c : ArmCore) (cycle : BitVec 32) (reg : Nat) (mode : BitVec 8)
    (value : BitVec 32) :
    tracing.apply c.traced (.register cycle .write reg mode value) = (c.setReg reg value).traced := by
  by_cases h : reg < 15
  · exact (dif_pos h).trans (traced_setReg c h value).symm
  · exact (dif_neg h).trans (traced_setReg_of_le c (Nat.not_lt.mp h) value).symm

theorem armReadRegister_traces (reg : Nat) : Traces (armReadRegister reg) := by
  intro c
  refine Replays.ofEvent rfl (fun hreg => ?_) rfl
  rw [if_neg (Nat.ne_of_lt hreg)]
  rfl

theorem armReadCpsr_traces : Traces armReadCpsr :=
  fun c => Replays.ofEvent (s := c) rfl (fun hreg => absurd hreg (by decide)) rfl

theorem armWriteRegister_traces (reg : Nat) (value : BitVec 32) :
    Traces (armWriteRegister reg value) := fun c =>
  Replays.ofEvent rfl trivial (apply_registerWrite c c.cycleCount reg
    (getMode (writeRegister c.reg reg value)) value)

theorem armWriteCpsr_traces (value : BitVec 32) : Traces (armWriteCpsr value) :=
  fun c => Replays.ofEvent rfl trivial (apply_registerWrite c c.cycleCount CPSR 0 value)

/-- The write of the pc is traced also where it is refused. -/
theorem armWriteUsrRegister_traces {reg : Nat} (hreg : 15 ≤ reg) (value : BitVec 32) :
    Traces (armWriteUsrRegister reg value) := by
  intro c
  have hstate : (armWriteUsrRegister reg value c).state.traced = c.traced := by
    show ArmCore.traced { c with reg := writeUsrRegister c.reg reg value } = c.traced
    unfold writeUsrRegister
    split
    · exact traced_setReg_of_le c hreg value
    · rfl
  have hevent := apply_registerWrite c c.cycleCount reg USR value
  rw [traced_setReg_of_le c hreg] at hevent
  exact Replays.ofEvent rfl trivial (hevent.trans hstate.symm)

/-! ## Memory -/

/-- A write stores the bytes of its value, and nothing else. -/
theorem memoryWrite_eq_updated (width : Width) (mem : Memory) (address : BitVec 32)
    (value : BitVec width.bits) :
    (memoryWrite width mem address value).2 = mem.updated address width.bytes value.toNat := by
  have hbytes := memoryWrite_address width mem address value
  have hsize := memoryWrite_size width mem address value
  have horder := memoryWrite_isBigEndian width mem address value
  generalize (memoryWrite width mem address value).2 = mem' at hbytes hsize horder ⊢
  obtain ⟨isBigEndian, bytes, size⟩ := mem'
  cases hbytes
  cases hsize
  cases horder
  rfl

/-- Reads of any width. -/
theorem read_replays {α : Type} {m : ArmM α} {c : ArmCore} {cycle address : BitVec 32}
    {cause : Cause} (width : Width) (value : BitVec width.bits)
    (hevents : (m c).events = [.memory cycle .read width.bytes cause address
      ((memoryRead width c.mem address value).2.setWidth 32)])
    (hstate : (m c).state = c) : Replays tracing ArmCore.traced m c := by
  refine Replays.ofEvent hevents (fun hinside => ?_) (by rw [hstate]; rfl)
  have hbits : width.bits ≤ 32 := by cases width <;> decide
  have hinside : c.mem.Inside address width.bytes := hinside
  rw [BitVec.toNat_setWidth_of_le hbits]
  exact memoryRead_value width hinside.le value

/-- Writes of any width. -/
theorem write_replays {α : Type} {m : ArmM α} {c : ArmCore} {cycle address : BitVec 32}
    {cause : Cause} (width : Width) (value : BitVec width.bits)
    (hevents : (m c).events = [.memory cycle .write width.bytes cause address (value.setWidth 32)])
    (hstate : (m c).state = { c with mem := (memoryWrite width c.mem address value).2 }) :
    Replays tracing ArmCore.traced m c := by
  have hbits : width.bits ≤ 32 := by cases width <;> decide
  refine Replays.ofEvent hevents trivial ?_
  rw [hstate, memoryWrite_eq_updated]
  show { c.traced with mem := c.mem.updated address width.bytes (value.setWidth 32).toNat } = _
  rw [BitVec.toNat_setWidth_of_le hbits]
  rfl

theorem armReadByte_traces (address : BitVec 32) (value : BitVec 8) :
    Traces (armReadByte address value) := fun _ => read_replays .byte value rfl rfl

theorem armReadWord_traces (address value : BitVec 32) : Traces (armReadWord address value) := by
  intro c
  have hevents : (armReadWord address value c).events = [.memory c.cycleCount .read 4 .otherAccess
      address ((memoryReadWord c.mem address value).2.setWidth 32)] := by
    rw [BitVec.setWidth_eq]
    rfl
  exact read_replays .word value hevents rfl

theorem armWriteByte_traces (address : BitVec 32) (value : BitVec 8) :
    Traces (armWriteByte address value) := fun _ => write_replays .byte value rfl rfl

theorem armWriteWord_traces (address value : BitVec 32) : Traces (armWriteWord address value) := by
  intro c
  have hevents : (armWriteWord address value c).events = [.memory c.cycleCount .write 4
      .otherAccess address (value.setWidth 32)] := by
    rw [BitVec.setWidth_eq]
    rfl
  exact write_replays .word value hevents rfl

theorem armFetch_traces (value : BitVec 32) : Traces (armFetch value) := by
  intro c
  have hcount : Traces (modifyState fun p => { p with cycleCount := p.cycleCount + 1 } : ArmM Unit) :=
    Faithful.modifyState fun _ => rfl
  -- the cycle is counted, the pc read, the word read and traced, the pc written
  refine (hcount c).bind ((armReadRegister_traces 15 _).bind ((Faithful.getState _).bind
    (Replays.bind (Replays.emit (fun hinside => ?_) rfl) ?_)))
  · exact memoryReadWord_value (Memory.Inside.le hinside) value
  · exact (armWriteRegister_traces 15 _ _).bind (Faithful.pure _ _)

theorem armException_traces (exception : BitVec 8) : Traces (armException exception) := by
  have hevent : Traces (emit (.exception exception) : ArmM Unit) :=
    fun _ => Replays.emit trivial rfl
  have hreset : Traces (do
      armWriteCpsr (0x1d3 ||| Exception_bit_9)
      armWriteUsrRegister 15 0) :=
    (armWriteCpsr_traces _).bind fun _ => armWriteUsrRegister_traces (Nat.le_refl 15) 0
  exact hevent.bind fun _ =>
    (sequential_faithful tracing ArmCore.traced).ite hreset (Faithful.pure ())

/-- Every access is traced. -/
theorem traces_accesses : AccessProperty @Traces :=
  { sequential_faithful tracing ArmCore.traced with
    readRegister := armReadRegister_traces
    readCpsr := armReadCpsr_traces
    writeRegister := armWriteRegister_traces
    fetch := armFetch_traces
    readByte := armReadByte_traces
    readWord := armReadWord_traces
    writeByte := armWriteByte_traces
    writeWord := armWriteWord_traces
    exception := armException_traces }

/-! ## Runs -/

/-- Calls of `arm_step`, one after the other. -/
def armSteps (h : Host) : List Locals → ArmM Unit
  | [] => return ()
  | u :: us => do
    let _result ← armStep h u
    armSteps h us

theorem armSteps_state (h : Host) (us : List Locals) (c : ArmCore) :
    (armSteps h us c).state = run h (us.map Action.step) c := by
  induction us generalizing c with
  | nil => rfl
  | cons u us ih => exact ih _

theorem armSteps_traces (h : Host) (us : List Locals) : Traces (armSteps h us) := by
  induction us with
  | nil => exact Faithful.pure ()
  | cons u us ih => exact traces_accesses.bind (traces_accesses.armStep h u) fun _ => ih

/-- **The trace of every run is a faithful log.** A read of the memory is held to its value where
its range is inside the memory. -/
theorem trace_faithful (h : Host) (us : List Locals) (c : ArmCore) :
    let events := (armSteps h us c).events
    let c' := run h (us.map Action.step) c
    c'.mem = (tracing.replay events c.traced).mem ∧
      (∀ r : Fin 15, c'.reg.rData r = (tracing.replay events c.traced).reg r) ∧
      ∀ before e after, events = before ++ e :: after →
        (tracing.replay before c.traced).Agrees e := by
  intro events c'
  have hfaithful := armSteps_traces h us c
  have hreplay : tracing.replay events c.traced = c'.traced := by
    rw [hfaithful.replay, armSteps_state]
  refine ⟨?_, fun r => ?_, fun before e after hevents => ?_⟩
  · rw [hreplay]
    rfl
  · rw [hreplay]
    rfl
  · have hconsistent : tracing.Consistent events c.traced := hfaithful.consistent
    rw [hevents] at hconsistent
    exact hconsistent.agrees

end Armator
