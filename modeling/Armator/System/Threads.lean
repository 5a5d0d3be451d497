import Armator.Gdb.Scanner
import Armator.Lib.Critical
import Armator.Semantics.Reply

set_option autoImplicit false

/-! # The threads of the simulator (`arm_simulator.c`)

`gdb_listener` runs the scanner on its connection, `irq_listener` hands the bytes it reads to
`arm_exception`. Both hold the lock while they use the processor, and the trace, which the two
share. A handler runs in one step, except `cont`: its loop takes two for each instruction, and
the trace of all of them is kept. RESET takes one step for each register it writes. `main` waits
for the end of the gdb listener, and ends the process. The calls on the sockets are taken to
succeed, also after `k` has shut the connection down: the wrappers of `csapp.c` end the process
when one fails.
-/

namespace Armator

open Logged CString Critical

/-! ## What is shared -/

/-- The processor, and the calls of the functions of `trace.c`. -/
structure Shared where
  core : ArmCore
  trace : List GdbEvent

/-- A call of a function of `trace.c`. -/
def GdbEvent.isTrace : GdbEvent → Bool
  | .arm _ | .traceDisable | .traceEnable => true
  | _ => false

/-- `struct gdb_protocol_data` without the processor. -/
structure Stub where
  targetException : Int
  packet : List Byte
  len : Nat

def Stub.on (s : Stub) (c : ArmCore) : Gdb :=
  { gdbInitData c s.packet with targetException := s.targetException, len := s.len }

def Gdb.stub (g : Gdb) : Stub := ⟨g.targetException, g.packet, g.len⟩

/-! ## The gdb listener -/

/-- What `gdb_packet_analysis` finds before it takes the lock: the character of the command and
what follows it, if the checksum is right. -/
def analysed (u : GdbLocals) (packet : List Byte) (length : Nat) : Option (Byte × List Byte) :=
  let i := max 1 (length - 3)
  let check := checksum ((packet.take i).drop 1)
  let given := match scanNumber (cstring (packet.drop (i + 1))) with
    | some (v, _) => v
    | none => u.given
  if check.setWidth 32 = given then
    let packet := packet.set i 0
    some (packet.getD 1 0, packet.drop 2)
  else
    none

/-- The command of a packet that has one. -/
def Arrival.command? (a : Arrival) : Option (Command × List Byte) :=
  match a.token with
  | .packet yytext =>
    match analysed a.locals (yytext ++ 0 :: a.behind) yytext.length with
    | some (index, data) => (handler index).map fun command => (command, data)
    | none => none
  | _ => none

/-- The error is flushed and the packet is acknowledged. -/
def acknowledge (len : Nat) : GdbM Nat := do
  let len ← handleError len
  gdbSendAck
  return len

/-- The loop of `cont` up to its test. -/
def contLook (instruction : BitVec 32) : GdbM (BitVec 32) := do
  gdbEmit .traceDisable
  let r15 := (← liftArm (armReadRegister 15)) - 4
  let instruction := (← liftArm (armReadWord r15 instruction)).2
  gdbEmit .traceEnable
  return instruction

/-- The loop of `cont` behind its test. -/
def contStep (cfg : GdbConfig) (u : GdbLocals) (k : Nat) : GdbM Unit := do
  let result ← liftArm (armStep cfg.host (u.steps k))
  modifyGdb fun g => { g with targetException := result }

/-- Where the gdb listener is. -/
inductive GdbPoint
  | scanning
  /-- in front of `pthread_mutex_lock` -/
  | waiting (command : Command) (data : List Byte) (u : GdbLocals)
  | handling (command : Command) (data : List Byte) (u : GdbLocals)
  /-- in the loop of `cont`, in front of the look at the next word -/
  | looking (u : GdbLocals) (k : Nat) (instruction : BitVec 32)
  /-- in the loop of `cont`, in front of `arm_step` -/
  | stepping (u : GdbLocals) (k : Nat) (instruction : BitVec 32)
  /-- behind the loop of `cont` -/
  | reporting
  /-- in front of `pthread_mutex_unlock` -/
  | returning
  | aborted (fault : Fault)
  | ended

structure GdbListener where
  point : GdbPoint
  stub : Stub
  /-- `data->len` -/
  len : Nat
  /-- what is still to be scanned -/
  input : List Arrival
  /-- what was sent, call by call -/
  sent : List (List Byte)

/-- Whatever the processor is, `m` does the same and leaves it. -/
def Independent {α : Type} (m : GdbM α) (s : Stub) (a : α) (s' : Stub) (es : List GdbEvent) :
    Prop := ∀ c, m (s.on c) = ⟨.ok a, s'.on c, es⟩

/-- The steps outside the critical section: of the scanner and of `gdb_packet_analysis`. -/
inductive GdbOwn (cfg : GdbConfig) : GdbListener → GdbListener → Prop
  | token {s s' : Stub} {len len' : Nat} {a : Arrival} {as : List Arrival}
      {sent : List (List Byte)} {es : List GdbEvent} (hnone : a.command? = none)
      (hact : Independent (a.token.act cfg a.locals a.behind len) s len' s' es) :
      GdbOwn cfg ⟨.scanning, s, len, a :: as, sent⟩ ⟨.scanning, s', len', as, sent ++ sends es⟩
  | request {s s' : Stub} {len len' : Nat} {a : Arrival} {as : List Arrival}
      {sent : List (List Byte)} {es : List GdbEvent} {command : Command} {data : List Byte}
      (hsome : a.command? = some (command, data))
      (hact : Independent (acknowledge len) s len' s' es) :
      GdbOwn cfg ⟨.scanning, s, len, a :: as, sent⟩
        ⟨.waiting command data a.locals, s', len', as, sent ++ sends es⟩
  | eof {s s' : Stub} {len len' : Nat} {sent : List (List Byte)} {es : List GdbEvent}
      (hact : Independent (handleError len) s len' s' es) :
      GdbOwn cfg ⟨.scanning, s, len, [], sent⟩ ⟨.ended, s', len', [], sent ++ sends es⟩

inductive GdbLock : GdbListener → GdbListener → Prop
  | lock {command : Command} {data : List Byte} {u : GdbLocals} {s : Stub} {len : Nat}
      {input : List Arrival} {sent : List (List Byte)} :
      GdbLock ⟨.waiting command data u, s, len, input, sent⟩
        ⟨.handling command data u, s, len, input, sent⟩

/-- The listener and what it shares after a program that ended in `o`; `next` is where it goes
on with the result. -/
def GdbListener.after {α : Type} (l : GdbListener) (shared : Shared)
    (o : Outcome Gdb GdbEvent (Except Fault α)) (next : α → GdbPoint) : GdbListener × Shared :=
  ({ l with
      point := match o.value with
        | .ok a => next a
        | .error fault => .aborted fault
      stub := o.state.stub
      sent := l.sent ++ sends o.events },
    ⟨o.state.arm, shared.trace ++ o.events.filter GdbEvent.isTrace⟩)

/-- The steps inside the critical section. -/
inductive GdbShared (cfg : GdbConfig) : GdbListener × Shared → GdbListener × Shared → Prop
  | handle {l : GdbListener} {shared : Shared} {command : Command} {data : List Byte}
      {u : GdbLocals} (hpoint : l.point = .handling command data u) (hcont : command ≠ .cont) :
      GdbShared cfg (l, shared)
        (l.after shared (command.run cfg u data (l.stub.on shared.core)) fun _ => .returning)
  | enter {l : GdbListener} {shared : Shared} {data : List Byte} {u : GdbLocals}
      (hpoint : l.point = .handling .cont data u) :
      GdbShared cfg (l, shared) ({ l with point := .looking u 0 u.instruction }, shared)
  | look {l : GdbListener} {shared : Shared} {u : GdbLocals} {k : Nat} {instruction : BitVec 32}
      (hpoint : l.point = .looking u k instruction) :
      GdbShared cfg (l, shared)
        (l.after shared (contLook instruction (l.stub.on shared.core)) fun w =>
          if w &&& 0xFFF000F0 = 0xE7F000F0 then .reporting else .stepping u k w)
  | step {l : GdbListener} {shared : Shared} {u : GdbLocals} {k : Nat} {instruction : BitVec 32}
      (hpoint : l.point = .stepping u k instruction) :
      GdbShared cfg (l, shared)
        (l.after shared (contStep cfg u k (l.stub.on shared.core)) fun _ =>
          .looking u (k + 1) instruction)
  | report {l : GdbListener} {shared : Shared} (hpoint : l.point = .reporting) :
      GdbShared cfg (l, shared)
        (l.after shared (gdbSendStopReason (l.stub.on shared.core)) fun _ => .returning)

inductive GdbUnlock : GdbListener → GdbListener → Prop
  | unlock {s : Stub} {len : Nat} {input : List Arrival} {sent : List (List Byte)} :
      GdbUnlock ⟨.returning, s, len, input, sent⟩ ⟨.scanning, s, len, input, sent⟩

def gdbListener (cfg : GdbConfig) : Thread Shared GdbListener where
  own := GdbOwn cfg
  lock := GdbLock
  shared := GdbShared cfg
  unlock := GdbUnlock

/-! ## The irq listener -/

/-- Where the irq listener is. -/
inductive IrqPoint
  | reading
  /-- in front of `pthread_mutex_lock` -/
  | waiting (irq : BitVec 8)
  | raising (irq : BitVec 8)
  /-- in `arm_exception`, in front of the write of the pc -/
  | resetting
  /-- in front of `pthread_mutex_unlock` -/
  | returning

structure IrqListener where
  point : IrqPoint
  /-- the bytes to come, connection by connection -/
  connections : List (List (BitVec 8))

inductive IrqOwn : IrqListener → IrqListener → Prop
  | read {irq : BitVec 8} {irqs : List (BitVec 8)} {connections : List (List (BitVec 8))} :
      IrqOwn ⟨.reading, (irq :: irqs) :: connections⟩ ⟨.waiting irq, irqs :: connections⟩
  /-- The connection ends, and the next one is accepted. -/
  | accept {connections : List (List (BitVec 8))} :
      IrqOwn ⟨.reading, [] :: connections⟩ ⟨.reading, connections⟩

inductive IrqLock : IrqListener → IrqListener → Prop
  | lock {irq : BitVec 8} {connections : List (List (BitVec 8))} :
      IrqLock ⟨.waiting irq, connections⟩ ⟨.raising irq, connections⟩

/-- What is shared after an access to the processor. -/
def Shared.after {α : Type} (shared : Shared) (o : Outcome ArmCore Event α) : Shared :=
  ⟨o.state, shared.trace ++ o.events.map .arm⟩

/-- The steps of `arm_exception`. -/
inductive IrqShared : IrqListener × Shared → IrqListener × Shared → Prop
  | ignore {irq : BitVec 8} {connections : List (List (BitVec 8))} {shared : Shared}
      (hirq : (irq.toNat : Int) ≠ RESET) :
      IrqShared (⟨.raising irq, connections⟩, shared)
        (⟨.returning, connections⟩, shared.after ((emit (.exception irq) : ArmM Unit) shared.core))
  | reset {irq : BitVec 8} {connections : List (List (BitVec 8))} {shared : Shared}
      (hirq : (irq.toNat : Int) = RESET) :
      IrqShared (⟨.raising irq, connections⟩, shared)
        (⟨.resetting, connections⟩, shared.after ((do
          emit (.exception irq)
          armWriteCpsr (0x1d3 ||| Exception_bit_9) : ArmM Unit) shared.core))
  | pc {connections : List (List (BitVec 8))} {shared : Shared} :
      IrqShared (⟨.resetting, connections⟩, shared)
        (⟨.returning, connections⟩, shared.after (armWriteUsrRegister 15 0 shared.core))

inductive IrqUnlock : IrqListener → IrqListener → Prop
  | unlock {connections : List (List (BitVec 8))} :
      IrqUnlock ⟨.returning, connections⟩ ⟨.reading, connections⟩

def irqListener : Thread Shared IrqListener where
  own := IrqOwn
  lock := IrqLock
  shared := IrqShared
  unlock := IrqUnlock

/-! ## Both -/

/-- The threads that `main` creates. -/
inductive Listener
  | gdb
  | irq
deriving DecidableEq

def Listener.State : Listener → Type
  | .gdb => GdbListener
  | .irq => IrqListener

def listeners (cfg : GdbConfig) : (i : Listener) → Thread Shared i.State
  | .gdb => gdbListener cfg
  | .irq => irqListener

abbrev Simulator : Type := Config Listener Shared Listener.State

/-- The threads right after their connections are there. -/
def Simulator.start (g : Gdb) (input : List Arrival) (connections : List (List (BitVec 8))) :
    Simulator where
  threads
    | .gdb => (⟨.scanning, g.stub, 0, input, []⟩ : GdbListener)
    | .irq => (⟨.reading, connections⟩ : IrqListener)
  state := ⟨g.arm, []⟩
  owner := none

def gdbOf (q : Quiescent Listener Shared Listener.State) : GdbListener := q.threads .gdb

def irqOf (q : Quiescent Listener Shared Listener.State) : IrqListener := q.threads .irq

/-! ## The process -/

/-- Where `main` is. -/
inductive MainPoint
  /-- in `pthread_join` -/
  | joining
  /-- in front of `arm_destroy` -/
  | joined
  /-- The process is gone, and the listeners with it. -/
  | returned

structure Process where
  simulator : Simulator
  main : MainPoint

/-- `main` joins the gdb listener only, and its return ends the process. The calls of
`arm_destroy` and `memory_destroy` are one step with it: what the irq listener does to the freed
processor is left out. A fault in a handler ends the process at once. -/
inductive ProcessStep (cfg : GdbConfig) : Process → Process → Prop
  | listener {c c' : Simulator} {main : MainPoint} (hmain : main ≠ .returned)
      (halive : ∀ fault, (gdbOf c.toQuiescent).point ≠ .aborted fault)
      (hstep : Step (listeners cfg) c c') : ProcessStep cfg ⟨c, main⟩ ⟨c', main⟩
  | join {c : Simulator} (hended : (gdbOf c.toQuiescent).point = .ended) :
      ProcessStep cfg ⟨c, .joining⟩ ⟨c, .joined⟩
  | destroy {c : Simulator} : ProcessStep cfg ⟨c, .joined⟩ ⟨c, .returned⟩

def ProcessReaches (cfg : GdbConfig) : Process → Process → Prop :=
  Relation.ReflTransGen (ProcessStep cfg)

def Process.start (g : Gdb) (input : List Arrival) (connections : List (List (BitVec 8))) :
    Process := ⟨Simulator.start g input connections, .joining⟩

end Armator
