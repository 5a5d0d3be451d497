import Armator.Basic.TraceText
import Armator.System.Sections

set_option autoImplicit false

/-! # What the trace shows of a session

The handlers switch the trace off while they look at the processor for the debugger. What is
shown of a session are the steps and the exceptions of the program (`makes_performAll`), although
the debugger may have changed the processor between them.
-/

namespace Armator

open Logged CString

/-! ## The trace file -/

/-- What is printed for the calls of the functions of `trace.c`, without `STATE`. -/
def traceFile (f : TraceFormat) : List GdbEvent → Tracer → Option (List Byte)
  | [], _ => some []
  | .arm e :: es, s => do
    let (printed, s) ← e.text f s
    let rest ← traceFile f es s
    return printed ++ rest
  | .traceDisable :: es, s => traceFile f es { s with enabled := false }
  | .traceEnable :: es, s => traceFile f es { s with enabled := true }
  | _ :: es, s => traceFile f es s

/-- Whether the trace is enabled behind `es`. -/
def switched : Bool → List GdbEvent → Bool
  | on, [] => on
  | _, .traceDisable :: es => switched false es
  | _, .traceEnable :: es => switched true es
  | on, _ :: es => switched on es

/-- The events of the processor while the trace is enabled. -/
def watched : Bool → List GdbEvent → List Event
  | _, [] => []
  | true, .arm e :: es => e :: watched true es
  | _, .traceDisable :: es => watched false es
  | _, .traceEnable :: es => watched true es
  | on, _ :: es => watched on es

theorem switched_append (on : Bool) (es es' : List GdbEvent) :
    switched on (es ++ es') = switched (switched on es) es' := by
  induction es generalizing on with
  | nil => rfl
  | cons e es ih => cases e <;> exact ih _

theorem watched_append (on : Bool) (es es' : List GdbEvent) :
    watched on (es ++ es') = watched on es ++ watched (switched on es) es' := by
  induction es generalizing on with
  | nil => rfl
  | cons e es ih =>
      cases e with
      | arm e =>
          cases on with
          | true => exact congrArg (e :: ·) (ih true)
          | false => exact ih false
      | _ => cases on <;> exact ih _

/-- Only the calls of the functions of `trace.c` matter. -/
theorem watched_filter (on : Bool) (es : List GdbEvent) :
    watched on (es.filter GdbEvent.isTrace) = watched on es := by
  induction es generalizing on with
  | nil => rfl
  | cons e es ih =>
      cases e with
      | arm e =>
          cases on with
          | true => exact congrArg (e :: ·) (ih true)
          | false => exact ih false
      | _ => cases on <;> exact ih _

theorem switched_filter (on : Bool) (es : List GdbEvent) :
    switched on (es.filter GdbEvent.isTrace) = switched on es := by
  induction es generalizing on with
  | nil => rfl
  | cons e es ih => cases e <;> exact ih _

theorem watched_arm (es : List Event) : watched true (es.map .arm) = es := by
  induction es with
  | nil => rfl
  | cons e es ih => exact congrArg (e :: ·) ih

theorem watched_hidden (es : List Event) : watched false (es.map .arm) = [] := by
  induction es with
  | nil => rfl
  | cons e es ih => exact ih

theorem switched_arm (on : Bool) (es : List Event) : switched on (es.map .arm) = on := by
  induction es with
  | nil => rfl
  | cons e es ih => exact ih

section

variable {f : TraceFormat}

theorem Tracer.next_enabled (s : Tracer) : s.next.enabled = s.enabled := by
  unfold next
  split <;> rfl

/-- A call does not switch the trace. -/
theorem Event.text_enabled {e : Event} {s s' : Tracer} {printed : List Byte}
    (h : e.text f s = some (printed, s')) : s'.enabled = s.enabled := by
  cases e with
  | memory cycle type size cause address value =>
      have hs' := congrArg Prod.snd (Option.some.inj h)
      rw [← show _ = s' from hs', traceMemoryText]
      split <;> exact s.next_enabled
  | register cycle type reg mode value =>
      obtain ⟨text, -, heq⟩ := Option.bind_eq_some_iff.mp h
      rw [← show s.next = s' from congrArg Prod.snd (Option.some.inj heq)]
      exact s.next_enabled
  | exception =>
      rw [← show s = s' from congrArg Prod.snd (Option.some.inj h)]

theorem Event.text_disabled (e : Event) (s : Tracer) :
    e.text f { s with enabled := false } = some ([], { s with enabled := false }) := by
  cases e <;> rfl

/-- **What is printed are the watched events.** -/
theorem traceFile_watched (on : Bool) (es : List GdbEvent) (s : Tracer) :
    traceFile f es { s with enabled := on }
      = traceText f (watched on es) { s with enabled := true } := by
  induction es generalizing on s with
  | nil => rfl
  | cons e es ih =>
      cases e with
      | arm e =>
          cases on with
          | false =>
              rw [traceFile, e.text_disabled]
              show (traceFile f es { s with enabled := false }).bind _ = _
              rw [ih]
              exact Option.bind_fun_some _
          | true =>
              rw [traceFile, watched, traceText]
              cases htext : e.text f { s with enabled := true } with
              | none => rfl
              | some out =>
                  obtain ⟨printed, s'⟩ := out
                  have henabled := Event.text_enabled htext
                  have hs' : { s' with enabled := true } = s' := by
                    obtain ⟨lastAddress, enabled, location, traceFlags⟩ := s'
                    cases henabled
                    rfl
                  have hrest := ih true s'
                  rw [hs'] at hrest
                  show (traceFile f es s').bind _ = (traceText f _ s').bind _
                  rw [hrest]
      | traceDisable => exact ih false s
      | traceEnable => exact ih true s
      | _ => exact ih on s

end

/-! ## Programs and the trace -/

section

variable {α β : Type}

/-- From `g` on, `m` shows `es`; the trace is `on` before it and `on'` behind it. -/
structure Watches (on : Bool) (m : GdbM α) (g : Gdb) (es : List Event) (on' : Bool) : Prop where
  events : watched on (m g).events = es
  switch : switched on (m g).events = on'

/-- If `m` returns, it has shown nothing. -/
def Unwatched (on : Bool) (m : GdbM α) (on' : Bool) : Prop :=
  ∀ g a, (m g).value = .ok a → Watches on m g [] on'

variable {m : GdbM α} {f : α → GdbM β} {g : Gdb} {on on' on'' : Bool} {es es' : List Event} {a : α}

theorem Watches.bind (hok : (m g).value = .ok a) (h : Watches on m g es on')
    (hf : Watches on' (f a) (m g).state es' on'') : Watches on (m >>= f) g (es ++ es') on'' := by
  constructor
  · rw [bind_of_ok hok, watched_append, h.events, h.switch, hf.events]
  · rw [bind_of_ok hok, switched_append, h.switch, hf.switch]

theorem Watches.arm (m : ArmM α) (g : Gdb) : Watches true (liftArm m) g (m g.arm).events true := by
  have hevents : (liftArm m g).events = (m g.arm).events.map .arm := by
    rw [liftArm, total_eq]
    rfl
  exact ⟨by rw [hevents, watched_arm], by rw [hevents, switched_arm]⟩

theorem Watches.untraced (h : (m g).events.filter GdbEvent.isTrace = []) (on : Bool) :
    Watches on m g [] on := by
  constructor
  · rw [← watched_filter, h]
    cases on <;> rfl
  · rw [← switched_filter, h]
    cases on <;> rfl

theorem Watches.modify (on : Bool) (f : Gdb → Gdb) (g : Gdb) :
    Watches on (modifyGdb f) g [] on := ⟨rfl, rfl⟩

namespace Unwatched

theorem bind (h : Unwatched on m on') (hf : ∀ a, Unwatched on' (f a) on'') :
    Unwatched on (m >>= f) on'' := by
  intro g b hb
  obtain ⟨a, ha, -⟩ := bind_ok hb
  rw [bind_of_ok ha] at hb
  exact (h g a ha).bind ha (hf a _ b hb)

theorem ite {P : Prop} [Decidable P] {m' : GdbM α} (h : Unwatched on m on')
    (h' : Unwatched on m' on') : Unwatched on (if P then m else m') on' := by
  split
  · exact h
  · exact h'

/-- While the trace is disabled, nothing is shown. -/
theorem arm (m : ArmM α) : Unwatched false (liftArm m) false := by
  intro g a _
  have hevents : (liftArm m g).events = (m g.arm).events.map .arm := by
    rw [liftArm, total_eq]
    rfl
  exact ⟨by rw [hevents, watched_hidden], by rw [hevents, switched_arm]⟩

theorem disable : Unwatched on (gdbEmit .traceDisable) false := by
  intro g a _
  cases on <;> exact ⟨rfl, rfl⟩

theorem enable : Unwatched on (gdbEmit .traceEnable) true := by
  intro g a _
  cases on <;> exact ⟨rfl, rfl⟩

end Unwatched

/-- The steps without the processor show nothing. -/
theorem plainProperty_unwatched (on : Bool) :
    PlainProperty fun {α : Type} (m : GdbM α) => Unwatched on m on where
  pure := fun _ _ _ _ => ⟨rfl, rfl⟩
  bind := fun hm hf => hm.bind hf
  emit := fun e he g a _ => by
    cases e with
    | arm | traceDisable | traceEnable | errorStore => cases he
    | _ => cases on <;> exact ⟨rfl, rfl⟩
  get := fun _ _ _ => ⟨rfl, rfl⟩
  modify := fun _ _ _ _ => ⟨rfl, rfl⟩
  throw := fun _ _ _ h => by cases h

/-! ## Handlers that show nothing -/

variable (cfg : GdbConfig) (u : GdbLocals) (data : List Byte)

theorem unwatched_writeRegisters (rs : List Nat) (o : Nat) :
    Unwatched false (writeRegisters cfg rs o) false := by
  have hplain := plainProperty_unwatched false
  induction rs generalizing o with
  | nil => exact hplain.pure ()
  | cons r rs ih =>
      exact (Unwatched.arm _).bind fun _ => (hplain.writeUint32 cfg o _).bind fun _ => ih _

theorem unwatched_readRegisters (rs : List Nat) (o : Nat) :
    Unwatched false (readRegisters cfg u data rs o) false := by
  have hplain := plainProperty_unwatched false
  induction rs generalizing o with
  | nil => exact hplain.pure ()
  | cons r rs ih =>
      exact (hplain.readUint32 cfg data u.value o).bind fun _ =>
        (Unwatched.arm _).bind fun _ => ih _

theorem unwatched_contLook (instruction : BitVec 32) : Unwatched true (contLook instruction) true :=
  Unwatched.disable.bind fun _ => (Unwatched.arm _).bind fun _ => (Unwatched.arm _).bind fun _ =>
    Unwatched.enable.bind fun _ => (plainProperty_unwatched true).pure _

/-- **Only the handlers that step show something.** -/
theorem unwatched_run {command : Command} (hcont : command ≠ .cont) (hstep : command ≠ .step) :
    Unwatched true (command.run cfg u data) true := by
  have hplain := plainProperty_unwatched true
  have hhidden := plainProperty_unwatched false
  cases command with
  | cont => exact absurd rfl hcont
  | killRequest => exact hplain.killRequest
  | query => exact hplain.query data
  | readGeneralRegisters =>
      exact Unwatched.disable.bind fun _ => hhidden.get.bind fun _ =>
        (unwatched_writeRegisters cfg _ _).bind fun _ => (Unwatched.arm _).bind fun _ =>
          (hhidden.writeUint32 cfg _ _).bind fun _ => (hhidden.writeUnavailable _ _).bind fun _ =>
            (Unwatched.arm _).bind fun _ => (hhidden.writeUint32 cfg _ _).bind fun _ =>
              Unwatched.enable.bind fun _ => hplain.gdbSendBuffer
  | readMemory => exact hplain.readMemory u data
  | readRegister =>
      exact (hplain.loadString data 0).bind fun _ => Unwatched.ite (Unwatched.disable.bind fun _ =>
        hhidden.get.bind fun _ => (Unwatched.arm _).bind fun _ =>
          (hhidden.writeUint32 cfg _ _).bind fun _ => Unwatched.enable.bind fun _ =>
            hplain.gdbSendBuffer) (hplain.throw _)
  | reason => exact hplain.gdbSendStopReason
  | setThread => exact hplain.setThread data
  | step => exact absurd rfl hstep
  | writeGeneralRegisters =>
      exact Unwatched.disable.bind fun _ => (unwatched_readRegisters cfg u data _ _).bind fun _ =>
        (hhidden.readUnavailable cfg u data _ _).bind fun _ =>
          (hhidden.readUint32 cfg data _ _).bind fun _ => (Unwatched.arm _).bind fun _ =>
            Unwatched.enable.bind fun _ => hplain.gdbSendData _
  | writeMemoryBinary => exact hplain.writeMemoryBinary u data
  | writeRegister =>
      refine (hplain.scanRegister u data).bind fun reg =>
        (hplain.pointAfter data _).bind fun o => ?_
      cases o with
      | none => exact hplain.throw _
      | some o =>
          exact (hplain.readUint32 cfg data _ o).bind fun _ =>
            Unwatched.ite (Unwatched.disable.bind fun _ => (Unwatched.arm _).bind fun _ =>
              Unwatched.enable.bind fun _ => hplain.gdbSendData _) (hplain.throw _)

end

/-! ## Deeds -/

/-- The program goes on, or the debugger changes a register or a byte. -/
inductive Deed
  | action (a : Action)
  | register (r : Nat) (value : BitVec 32)
  | byte (address : BitVec 32) (value : BitVec 8)

/-- What a command may do to the processor for the debugger; 16 is the CPSR. -/
def Command.mayDo : Command → Deed → Bool
  | .writeGeneralRegisters, .register r _ => r ≤ 16
  | .writeRegister, .register r _ => r < 16
  | .writeMemoryBinary, .byte _ _ => true
  | _, _ => false

def Deed.call (h : Host) : Deed → ArmM Unit
  | .action a => a.call h
  | .register r value => modifyState fun c => c.setReg r value
  | .byte address value => modifyState fun c =>
    { c with mem := (memoryWriteByte c.mem address value).2 }

def deedCalls (h : Host) : List Deed → ArmM Unit
  | [] => return ()
  | d :: ds => do
    d.call h
    deedCalls h ds

section

variable {h : Host} {command : Command} {ds ds' : List Deed} {c c' : ArmCore}

theorem deedCalls_append (ds ds' : List Deed) :
    deedCalls h (ds ++ ds') = deedCalls h ds >>= fun _ => deedCalls h ds' := by
  induction ds with
  | nil => rfl
  | cons d ds ih =>
      calc deedCalls h (d :: ds ++ ds')
          = d.call h >>= fun _ => deedCalls h ds >>= fun _ => deedCalls h ds' :=
            congrArg (d.call h >>= ·) (funext fun _ => ih)
        _ = deedCalls h (d :: ds) >>= fun _ => deedCalls h ds' :=
            (Logged.bind_assoc (d.call h) (fun _ => deedCalls h ds) fun _ => deedCalls h ds').symm

theorem deedCalls_actions (actions : List Action) :
    deedCalls h (actions.map .action) = calls h actions := by
  induction actions with
  | nil => rfl
  | cons a actions ih => exact congrArg (a.call h >>= ·) (funext fun _ => ih)

/-- How `command` leads from `c` to `c'` without the program. -/
def Patched (h : Host) (command : Command) (ds : List Deed) (c c' : ArmCore) : Prop :=
  (∀ d ∈ ds, command.mayDo d = true) ∧ (deedCalls h ds c).state = c' ∧
    (deedCalls h ds c).events = []

theorem patched_nil (c : ArmCore) : Patched h command [] c c := ⟨List.forall_mem_nil _, rfl, rfl⟩

theorem Patched.cons {d : Deed} (hd : command.mayDo d = true)
    (hds : Patched h command ds (d.call h c).state c') : Patched h command (d :: ds) c c' := by
  obtain ⟨hmay, hstate, hevents⟩ := hds
  refine ⟨List.forall_mem_cons.mpr ⟨hd, hmay⟩, hstate, ?_⟩
  have hcall : (d.call h c).events = [] := by
    cases d with
    | action => cases command <;> cases hd
    | _ => rfl
  show (d.call h c).events ++ (deedCalls h ds (d.call h c).state).events = []
  rw [hcall, hevents]
  rfl

end

/-! ## The deeds of the handlers -/

section

variable {cfg : GdbConfig} {u : GdbLocals} {data : List Byte} {g : Gdb}

theorem patched_restored (cfg : GdbConfig) (u : GdbLocals) (data : List Byte) (v : BitVec 32)
    {rs : List Nat} (hrs : ∀ r ∈ rs, r < 16) (o : Nat) (c : ArmCore) :
    ∃ ds, Patched cfg.host .writeGeneralRegisters ds c
      ((c.restored cfg u data rs o).setReg 16 v) := by
  induction rs generalizing o c with
  | nil => exact ⟨[.register 16 v], (patched_nil _).cons rfl⟩
  | cons r rs ih =>
      obtain ⟨hr, hrest⟩ := List.forall_mem_cons.mp hrs
      obtain ⟨ds, hds⟩ := ih hrest (o + 8) (c.setReg r (readWord cfg u.value data o))
      exact ⟨.register r _ :: ds, hds.cons (decide_eq_true (Nat.le_of_lt hr))⟩

theorem patched_stored (h : Host) (address : BitVec 32) (bytes : List (BitVec 8)) (c : ArmCore) :
    ∃ ds, Patched h .writeMemoryBinary ds c { c with mem := c.mem.stored address bytes } := by
  induction bytes generalizing address c with
  | nil => exact ⟨[], patched_nil c⟩
  | cons b bytes ih =>
      obtain ⟨ds, hds⟩ := ih (address + 1) { c with mem := (memoryWriteByte c.mem address b).2 }
      exact ⟨.byte address b :: ds, hds.cons rfl⟩

/-- A command that changes the processor for the debugger. -/
def Command.patches : Command → Bool
  | .writeGeneralRegisters | .writeMemoryBinary | .writeRegister => true
  | _ => false

/-- The first `n` steps of a handler. -/
def stepDeeds (u : GdbLocals) (k n : Nat) : List Deed :=
  (List.range' k n).map fun i => .action (.step (u.steps i))

/-- What a command does to the processor. -/
inductive Command.Does (u : GdbLocals) : Command → List Deed → Prop
  | step : Does u .step (stepDeeds u 0 1)
  | cont (n : Nat) : Does u .cont (stepDeeds u 0 n)
  | patch {command : Command} {ds : List Deed} (hpatches : command.patches = true)
      (hds : ∀ d ∈ ds, command.mayDo d = true) : Does u command ds
  | look {command : Command} (hpatches : command.patches = false) (hcont : command ≠ .cont)
      (hstep : command ≠ .step) : Does u command []

/-- From `g` on, `m` does `ds`, and shows what these emit. -/
structure Makes {α : Type} (h : Host) (m : GdbM α) (g : Gdb) (ds : List Deed) : Prop where
  state : (m g).state.arm = (deedCalls h ds g.arm).state
  watches : Watches true m g (deedCalls h ds g.arm).events true

theorem Makes.bind {α β : Type} {h : Host} {m : GdbM α} {f : α → GdbM β} {a : α}
    {ds ds' : List Deed} (hok : (m g).value = .ok a) (hm : Makes h m g ds)
    (hf : Makes h (f a) (m g).state ds') : Makes h (m >>= f) g (ds ++ ds') := by
  have hcalls := congrFun (deedCalls_append (h := h) ds ds') g.arm
  constructor
  · rw [bind_of_ok hok, hf.state, hm.state, hcalls]
    rfl
  · have hwatches := hm.watches.bind hok hf.watches
    rw [hm.state] at hwatches
    rw [hcalls]
    exact hwatches

/-- Nothing is done first. -/
theorem Makes.nothingBind {α β : Type} {h : Host} {m : GdbM α} {f : α → GdbM β} {a : α}
    {ds : List Deed} (hok : (m g).value = .ok a) (hm : Makes h m g [])
    (hf : Makes h (f a) (m g).state ds) : Makes h (m >>= f) g ds := hm.bind hok hf

/-- Nothing is done at the end. -/
theorem Makes.bindNothing {α β : Type} {h : Host} {m : GdbM α} {f : α → GdbM β} {a : α}
    {ds : List Deed} (hok : (m g).value = .ok a) (hm : Makes h m g ds)
    (hf : Makes h (f a) (m g).state []) : Makes h (m >>= f) g ds := by
  have hboth := hm.bind hok hf
  rwa [List.append_nil] at hboth

theorem Makes.nothing {α : Type} {h : Host} {m : GdbM α} (hstate : (m g).state.arm = g.arm)
    (hwatches : Watches true m g [] true) : Makes h m g [] := ⟨hstate, hwatches⟩

theorem makes_patch {command : Command} {ds : List Deed}
    (hpatched : Patched cfg.host command ds g.arm (command.run cfg u data g).state.arm)
    (hwatches : Watches true (command.run cfg u data) g [] true) :
    Makes cfg.host (command.run cfg u data) g ds :=
  ⟨hpatched.2.1.symm, by rw [hpatched.2.2]; exact hwatches⟩

theorem stepDeeds_add (u : GdbLocals) (k n m : Nat) :
    stepDeeds u k (n + m) = stepDeeds u k n ++ stepDeeds u (k + n) m := by
  rw [stepDeeds, ← List.range'_append_1, List.map_append]
  rfl

theorem makes_contStep (k : Nat) : Makes cfg.host (contStep cfg u k) g (stepDeeds u k 1) := by
  have hstate := (contStep_ok cfg u k g).2
  have hevents : (deedCalls cfg.host (stepDeeds u k 1) g.arm).events
      = (armStep cfg.host (u.steps k) g.arm).events ++ [] :=
    (List.append_nil _)
  constructor
  · rw [hstate]
    exact (armStep_state cfg.host (u.steps k) g.arm).symm
  · have hok : (liftArm (armStep cfg.host (u.steps k)) g).value
        = .ok (armStep cfg.host (u.steps k) g.arm).value := by
      rw [liftArm, total_eq]
      rfl
    rw [hevents]
    exact (Watches.arm _ g).bind hok (Watches.modify true _ _)

theorem makes_stopReason (h : Host) (g : Gdb) : Makes h gdbSendStopReason g [] := by
  have hrun := gdbSendStopReason_runs g
  refine .nothing ?_ ((plainProperty_unwatched true).gdbSendStopReason g () hrun.value)
  rw [hrun.state]
  rfl

theorem makes_contLook (instruction : BitVec 32) : Makes cfg.host (contLook instruction) g [] := by
  obtain ⟨hvalue, hstate⟩ := contLook_ok instruction g
  exact .nothing (by rw [hstate]) (unwatched_contLook instruction g _ hvalue)

/-- The loop of `cont`, from its `k`-th step on. -/
theorem makes_contLoop {fuel k : Nat} {instruction : BitVec 32}
    (hok : (contLoop cfg u fuel k instruction g).value = .ok ()) :
    ∃ n, Makes cfg.host (contLoop cfg u fuel k instruction) g (stepDeeds u k n) := by
  induction fuel generalizing k instruction g with
  | zero => cases hok
  | succ fuel ih =>
      have hlook := (contLook_ok instruction g).1
      have hmakes : Makes cfg.host (contLook instruction) g [] := makes_contLook instruction
      rw [contLoop_succ] at hok ⊢
      rw [bind_of_ok hlook] at hok
      by_cases hbreak : lookAhead instruction g.arm &&& 0xFFF000F0 = 0xE7F000F0
      · refine ⟨0, hmakes.bind hlook ?_⟩
        rw [if_pos hbreak]
        exact .nothing rfl ⟨rfl, rfl⟩
      · rw [if_neg hbreak] at hok
        have hstep := (contStep_ok cfg u k (contLook instruction g).state).1
        rw [bind_of_ok hstep] at hok
        obtain ⟨n, hrest⟩ := ih hok
        refine ⟨1 + n, ?_⟩
        refine hmakes.nothingBind hlook ?_
        rw [if_neg hbreak, stepDeeds_add]
        exact (makes_contStep k).bind hstep hrest

theorem makes_step : Makes cfg.host (step cfg u) g (stepDeeds u 0 1) := by
  have hsplit : step cfg u = contStep cfg u 0 >>= fun _ => gdbSendStopReason := by
    simp only [step, contStep, LawfulMonad.bind_assoc]
  rw [hsplit]
  exact (makes_contStep 0).bind (contStep_ok cfg u 0 g).1 (makes_stopReason cfg.host _)

/-- `X` stores the bytes of its packet from its address on, or nothing at all. -/
theorem writeMemoryBinary_arm (u : GdbLocals) (data : List Byte) (g : Gdb) :
    (writeMemoryBinary u data g).state.arm = g.arm ∨
      (givenRange u data).1.toNat < g.mem.size ∧ ∃ o,
        (writeMemoryBinary u data g).state.arm = { g.arm with
          mem := g.mem.stored (givenRange u data).1
            (contents data (givenRange u data).2.toNat o) } := by
  by_cases haddress : (givenRange u data).1.toNat < g.mem.size
  · cases hafter : afterChar data (chr ':') with
    | none =>
        left
        rcases writeMemoryBinary_absent u data g haddress hafter with ⟨-, hrun⟩ | hrun
        · rw [hrun.state]
          rfl
        · rw [hrun.state]
    | some o =>
        right
        refine ⟨haddress, o, ?_⟩
        rw [(writeMemoryBinary_runs u data g haddress hafter).state]
        rfl
  · left
    rw [(writeMemoryBinary_refused u data g haddress).state]
    rfl

theorem patched_writeMemoryBinary (h : Host) (u : GdbLocals) (data : List Byte) (g : Gdb) :
    ∃ ds, Patched h .writeMemoryBinary ds g.arm (writeMemoryBinary u data g).state.arm := by
  rcases writeMemoryBinary_arm u data g with hstate | ⟨-, o, hstate⟩
  · rw [hstate]
    exact ⟨[], patched_nil _⟩
  · rw [hstate]
    exact patched_stored h _ _ g.arm

theorem patched_writeRegister (h : Host) (cfg : GdbConfig) (u : GdbLocals) (data : List Byte)
    (g : Gdb) :
    ∃ ds, Patched h .writeRegister ds g.arm (writeRegisterHandler cfg u data g).state.arm := by
  cases hafter : afterChar data (chr '=') with
  | none =>
      rw [(writeRegisterHandler_absent cfg u data g hafter).state]
      exact ⟨[], patched_nil _⟩
  | some o =>
      by_cases hreg : givenReg u data < 16
      · rw [(writeRegisterHandler_runs cfg u data g hafter hreg).state]
        exact ⟨[.register _ _], (patched_nil _).cons (decide_eq_true (BitVec.lt_def.mp hreg))⟩
      · rw [(writeRegisterHandler_fault cfg u data g hafter hreg).state]
        exact ⟨[], patched_nil _⟩

theorem arm_of_replied {m : GdbM Unit} {reply : List Byte} {es : List GdbEvent}
    (hrun : Runs shown m g (.ok ()) (g.replied reply) es) : (m g).state.arm = g.arm := by
  rw [hrun.state]
  rfl

/-- The commands that only look. -/
theorem run_arm {command : Command} (hpatches : command.patches = false) (hcont : command ≠ .cont)
    (hstep : command ≠ .step) : (command.run cfg u data g).state.arm = g.arm := by
  cases command with
  | cont => exact absurd rfl hcont
  | killRequest => rfl
  | query => exact arm_of_replied (query_runs data g)
  | readGeneralRegisters => exact arm_of_replied (readGeneralRegisters_runs cfg g)
  | readMemory => exact arm_of_replied (readMemory_runs u data g)
  | readRegister =>
      by_cases hreg : atoi (cstring data) < 16
      · exact arm_of_replied (readRegisterHandler_runs cfg data g hreg)
      · exact congrArg Gdb.arm (readRegisterHandler_fault cfg data g hreg).state
  | reason => exact arm_of_replied (gdbSendStopReason_runs g)
  | setThread => exact arm_of_replied (setThread_runs data g)
  | step => exact absurd rfl hstep
  | writeGeneralRegisters | writeMemoryBinary | writeRegister => cases hpatches

/-- The commands that change the processor for the debugger. -/
theorem run_patched {command : Command} (hpatches : command.patches = true) :
    ∃ ds, Patched cfg.host command ds g.arm (command.run cfg u data g).state.arm := by
  cases command with
  | writeGeneralRegisters =>
      show ∃ ds, Patched _ _ ds g.arm (writeGeneralRegisters cfg u data g).state.arm
      rw [(writeGeneralRegisters_runs cfg u data g).state]
      exact patched_restored cfg u data _ (fun _ => List.mem_range.mp) 0 g.arm
  | writeMemoryBinary => exact patched_writeMemoryBinary cfg.host u data g
  | writeRegister => exact patched_writeRegister cfg.host cfg u data g
  | _ => cases hpatches

/-- **What a command does, and that it shows nothing else.** -/
theorem makes_run {command : Command} (hok : (command.run cfg u data g).value = .ok ()) :
    ∃ ds, command.Does u ds ∧ Makes cfg.host (command.run cfg u data) g ds := by
  by_cases hcont : command = .cont
  · subst hcont
    obtain ⟨_, hloop, -⟩ := bind_ok (m := contLoop cfg u u.fuel 0 u.instruction) hok
    obtain ⟨n, hmakes⟩ := makes_contLoop hloop
    have hreason := hmakes.bind (f := fun _ => gdbSendStopReason) hloop
      (makes_stopReason cfg.host _)
    rw [List.append_nil] at hreason
    exact ⟨_, .cont n, hreason⟩
  · by_cases hstep : command = .step
    · subst hstep
      exact ⟨_, .step, makes_step⟩
    · have hwatches := unwatched_run cfg u data hcont hstep g () hok
      cases hpatches : command.patches with
      | false =>
          exact ⟨[], .look hpatches hcont hstep,
            .nothing (run_arm hpatches hcont hstep) hwatches⟩
      | true =>
          obtain ⟨ds, hds⟩ : ∃ ds, Patched cfg.host command ds g.arm
              (command.run cfg u data g).state.arm := run_patched hpatches
          exact ⟨ds, .patch hpatches hds.1, makes_patch hds hwatches⟩

end

/-! ## The deeds of a session -/

/-- What an item does to the processor. -/
inductive Item.Does : Item → List Deed → Prop
  | exception (irq : BitVec 8) : Does (.exception irq) [.action (.irq irq)]
  | command {a : Arrival} {command : Command} {data : List Byte} {ds : List Deed}
      (hcommand : a.command? = some (command, data)) (hds : command.Does a.locals ds) :
      Does (.token a) ds
  | plain {a : Arrival} (hnone : a.command? = none) : Does (.token a) []

section

variable {cfg : GdbConfig} {g : Gdb} {len n : Nat}

theorem makes_command {a : Arrival} {command : Command} {data : List Byte}
    (hcommand : a.command? = some (command, data))
    (hok : (a.token.act cfg a.locals a.behind len g).value = .ok n) :
    ∃ ds, command.Does a.locals ds ∧
      Makes cfg.host (a.token.act cfg a.locals a.behind len) g ds := by
  have hack : (acknowledge len g).value = .ok 0 := by rw [acknowledge_eq]
  have hacks : Makes cfg.host (acknowledge len) g [] := by
    refine .nothing (by rw [acknowledge_eq]) (.untraced ?_ true)
    rw [acknowledge_eq, List.filter_append, flushEvents_trace]
    rfl
  rw [act_command hcommand] at hok ⊢
  rw [bind_of_ok hack] at hok
  have hstate : (acknowledge len g).state = g := by rw [acknowledge_eq]
  rw [hstate] at hok
  obtain ⟨_, hrun, -⟩ := bind_ok hok
  obtain ⟨ds, hdoes, hmakes⟩ := makes_run hrun
  refine ⟨ds, hdoes, hacks.nothingBind hack ?_⟩
  rw [hstate]
  exact hmakes.bindNothing hrun (.nothing rfl ⟨rfl, rfl⟩)

theorem makes_item {i : Item} (hok : (i.perform cfg len g).value = .ok n) :
    ∃ ds, i.Does ds ∧ Makes cfg.host (i.perform cfg len) g ds := by
  cases i with
  | token a =>
      cases hcommand : a.command? with
      | none =>
          obtain ⟨len', s', es, hact, htrace⟩ := act_independent cfg hcommand len g.stub
          have heq : (Item.token a).perform cfg len g = ⟨.ok len', s'.on g.arm, es⟩ := by
            have hheld := hact g.arm
            rw [g.stub_on] at hheld
            exact hheld
          exact ⟨[], .plain hcommand, .nothing (by rw [heq]; rfl)
            (.untraced (by rw [heq]; exact htrace) true)⟩
      | some found =>
          obtain ⟨ds, hdoes, hmakes⟩ := makes_command hcommand hok
          exact ⟨ds, .command hcommand hdoes, hmakes⟩
  | exception irq =>
      have hlift : (liftArm (armException irq) g).value = .ok () := by
        rw [liftArm, total_eq]
      have harm : Makes cfg.host (liftArm (armException irq)) g [.action (.irq irq)] := by
        refine ⟨?_, ?_⟩
        · rw [liftArm, total_eq]
          rfl
        · have hevents : (deedCalls cfg.host [.action (.irq irq)] g.arm).events
              = (armException irq g.arm).events := List.append_nil _
          rw [hevents]
          exact .arm _ g
      exact ⟨_, .exception irq, harm.bindNothing hlift (.nothing rfl ⟨rfl, rfl⟩)⟩

/-- **A session is watched.** Each item does its deeds, and what is shown is what these emit. -/
theorem makes_performAll {items : List Item} (hok : (performAll cfg items len g).value = .ok n) :
    ∃ dss, List.Forall₂ Item.Does items dss ∧
      Makes cfg.host (performAll cfg items len) g dss.flatten := by
  induction items generalizing len g with
  | nil => exact ⟨[], .nil, .nothing rfl ⟨rfl, rfl⟩⟩
  | cons i items ih =>
      have hcons : performAll cfg (i :: items) len = i.perform cfg len >>= performAll cfg items :=
        rfl
      rw [hcons] at hok ⊢
      obtain ⟨len', hfirst, -⟩ := bind_ok hok
      rw [bind_of_ok hfirst] at hok
      obtain ⟨ds, hdoes, hmakes⟩ := makes_item hfirst
      obtain ⟨dss, hdoess, hrest⟩ := ih hok
      exact ⟨ds :: dss, .cons hdoes hdoess, hmakes.bind hfirst hrest⟩

end

end Armator
