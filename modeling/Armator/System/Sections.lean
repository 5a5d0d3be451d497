import Armator.Laws.ErrorBuffer
import Armator.Semantics.Run
import Armator.System.Threads

set_option autoImplicit false

/-! # What the listeners do, one after the other

Between two critical sections, what happened is a list of tokens that were acted upon and of
exceptions that were raised, one after the other (`Explained`). A critical section is one of
these (`gdbProgress_step`, `irqProgress_step`), so all of them are kept (`explained_serial`).
-/

namespace Armator

open Logged CString Critical

/-! ## One after the other -/

inductive Item
  | token (a : Arrival)
  | exception (irq : BitVec 8)

/-- `len` is `data->len`. -/
def Item.perform (cfg : GdbConfig) (len : Nat) : Item → GdbM Nat
  | .token a => a.token.act cfg a.locals a.behind len
  | .exception irq => do
    liftArm (armException irq)
    return len

def performAll (cfg : GdbConfig) : List Item → Nat → GdbM Nat
  | [], len => return len
  | i :: is, len => do
    let len ← i.perform cfg len
    performAll cfg is len

def Item.token? : Item → Option Arrival
  | .token a => some a
  | .exception _ => none

def Item.exception? : Item → Option (BitVec 8)
  | .token _ => none
  | .exception irq => some irq

/-- The fuel of `cont` is no part of the program. -/
def GdbLocals.refuel (u : GdbLocals) (n : Nat) : GdbLocals := { u with fuel := n }

def Arrival.refuel (a : Arrival) (n : Nat) : Arrival := { a with locals := a.locals.refuel n }

/-- The same tokens in the same circumstances. -/
def SameTokens (as bs : List Arrival) : Prop :=
  List.Forall₂ (fun a b => ∃ n, b = a.refuel n) as bs

section

variable {cfg : GdbConfig}

theorem performAll_append (is js : List Item) (len : Nat) :
    performAll cfg (is ++ js) len = performAll cfg is len >>= performAll cfg js := by
  induction is generalizing len with
  | nil => exact (LawfulMonad.pure_bind len (performAll cfg js)).symm
  | cons i is ih =>
      calc performAll cfg (i :: is ++ js) len
          = i.perform cfg len >>= fun n => performAll cfg is n >>= performAll cfg js :=
            congrArg (i.perform cfg len >>= ·) (funext ih)
        _ = performAll cfg (i :: is) len >>= performAll cfg js :=
            (LawfulMonad.bind_assoc _ _ _).symm

/-- One item more. -/
theorem performAll_concat {items : List Item} {i : Item} {g g' : Gdb} {len : Nat}
    {es : List GdbEvent} (h : performAll cfg items 0 g = ⟨.ok len, g', es⟩) :
    performAll cfg (items ++ [i]) 0 g = ⟨(i.perform cfg len g').value, (i.perform cfg len g').state,
      es ++ (i.perform cfg len g').events⟩ := by
  have hlast : performAll cfg [i] = fun n => i.perform cfg n := by
    funext n
    exact bind_pure (i.perform cfg n)
  have hvalue : (performAll cfg items 0 g).value = .ok len := by rw [h]
  rw [performAll_append, bind_of_ok hvalue, h, hlast]

theorem SameTokens.concat {as bs : List Arrival} (h : SameTokens as bs) (a : Arrival) (n : Nat) :
    SameTokens (as ++ [a]) (bs ++ [a.refuel n]) :=
  List.rel_append h (.cons ⟨n, rfl⟩ .nil)

end

/-! ## Stubs -/

@[simp] theorem Stub.on_arm (s : Stub) (c : ArmCore) : (s.on c).arm = c := rfl

@[simp] theorem Stub.on_stub (s : Stub) (c : ArmCore) : (s.on c).stub = s := rfl

theorem Gdb.stub_on (g : Gdb) : g.stub.on g.arm = g := by
  obtain ⟨arm, exception, packet, len, buffer, rfl⟩ := g
  rfl

/-! ## Commands -/

section

variable {cfg : GdbConfig} {u : GdbLocals} {a : Arrival} {len : Nat} {g : Gdb}

/-- The check of a packet, and what it leads to. -/
theorem gdbPacketAnalysis_analysed (packet : List Byte) (length : Nat) :
    gdbPacketAnalysis cfg u packet length = match analysed u packet length with
      | some (index, data) => do
        gdbSendAck
        dispatch cfg u index data
      | none => gdbRequireRetransmission := by
  have hcheck {given : BitVec 32} (index : Byte) (data : List Byte) (check : BitVec 32) :
      (if check = given then do
          gdbSendAck
          dispatch cfg u index data
        else gdbRequireRetransmission)
        = match if check = given then some (index, data) else none with
          | some (index, data) => do
            gdbSendAck
            dispatch cfg u index data
          | none => gdbRequireRetransmission := by
    by_cases h : check = given
    · rw [if_pos h, if_pos h]
    · rw [if_neg h, if_neg h]
  unfold gdbPacketAnalysis analysed
  dsimp only
  rcases scanNumber (cstring (packet.drop (max 1 (length - 3) + 1))) with _ | ⟨given, rest⟩
  · exact hcheck _ _ _
  · exact hcheck _ _ _

theorem acknowledge_eq (len : Nat) (g : Gdb) :
    acknowledge len g = ⟨.ok 0, g, flushEvents len ++ [.send [chr '+']]⟩ := by
  have hzero : (handleError len g).value = .ok 0 := by rw [handleError_eq]
  have hbind := bind_of_ok (f := fun len => gdbSendAck >>= fun _ => (pure len : GdbM Nat)) hzero
  rw [handleError_eq] at hbind
  exact hbind

/-- A packet with a command is acknowledged, and its handler is called. -/
theorem act_command {command : Command} {data : List Byte}
    (h : a.command? = some (command, data)) :
    a.token.act cfg a.locals a.behind len = (do
      let len ← acknowledge len
      command.run cfg a.locals data
      return len) := by
  obtain ⟨t, u, behind⟩ := a
  cases t with
  | packet yytext =>
      have hanalysis : gdbPacketAnalysis cfg u (yytext ++ 0 :: behind) yytext.length = (do
          gdbSendAck
          command.run cfg u data) := by
        rw [gdbPacketAnalysis_analysed]
        unfold Arrival.command? at h
        dsimp only at h
        cases hanalysed : analysed u (yytext ++ 0 :: behind) yytext.length with
        | none =>
            rw [hanalysed] at h
            cases h
        | some found =>
            obtain ⟨index, rest⟩ := found
            rw [hanalysed] at h
            obtain ⟨found, hhandler, hfound⟩ := Option.map_eq_some_iff.mp h
            cases hfound
            dsimp only
            rw [dispatch, hhandler]
      have hact : (ScannerToken.packet yytext).act cfg u behind len = (do
          let len ← handleError len
          gdbPacketAnalysis cfg u (yytext ++ 0 :: behind) yytext.length
          return len) := rfl
      rw [hact, hanalysis]
      simp only [acknowledge, LawfulMonad.bind_assoc, LawfulMonad.pure_bind]
  | _ => cases h

/-- The outcome of a command, and what is sent before. -/
theorem act_command_eq (len : Nat) {command : Command} {data : List Byte} {g' : Gdb}
    {es : List GdbEvent} (h : a.command? = some (command, data))
    (hrun : command.run cfg a.locals data g = ⟨.ok (), g', es⟩) :
    a.token.act cfg a.locals a.behind len g
      = ⟨.ok 0, g', flushEvents len ++ [.send [chr '+']] ++ es⟩ := by
  have hack : (acknowledge len g).value = .ok 0 := by rw [acknowledge_eq]
  have hok : (command.run cfg a.locals data g).value = .ok () := by rw [hrun]
  have hlast := bind_of_ok (f := fun _ => (pure 0 : GdbM Nat)) hok
  rw [hrun] at hlast
  rw [act_command h, bind_of_ok hack, acknowledge_eq, hlast]
  exact congrArg (Outcome.mk _ _) (congrArg _ (List.append_nil es))

theorem analysed_refuel (u : GdbLocals) (n : Nat) (packet : List Byte) (length : Nat) :
    analysed (u.refuel n) packet length = analysed u packet length := by
  unfold analysed
  rw [show (u.refuel n).given = u.given from rfl]

/-- Fuel does not decide what a packet asks for. -/
theorem command?_refuel (a : Arrival) (n : Nat) : (a.refuel n).command? = a.command? := by
  unfold Arrival.command?
  dsimp only [Arrival.refuel]
  simp only [analysed_refuel]

end

/-! ## What needs no lock -/

section

variable {cfg : GdbConfig} {s s' s'' : Stub}

theorem Independent.bind {α β : Type} {m : GdbM α} {f : α → GdbM β} {a : α} {b : β}
    {es es' : List GdbEvent} (h : Independent m s a s' es) (hf : Independent (f a) s' b s'' es') :
    Independent (m >>= f) s b s'' (es ++ es') := by
  intro c
  have hvalue : (m (s.on c)).value = .ok a := by rw [h c]
  rw [bind_of_ok hvalue, h c, hf c]

theorem independent_pure {α : Type} (a : α) (s : Stub) : Independent (pure a) s a s [] :=
  fun _ => rfl

theorem independent_gdbEmit (e : GdbEvent) (s : Stub) : Independent (gdbEmit e) s () s [e] :=
  fun _ => rfl

theorem independent_handleError (len : Nat) (s : Stub) :
    Independent (handleError len) s 0 s (flushEvents len) := fun c => handleError_eq len (s.on c)

theorem independent_acknowledge (len : Nat) (s : Stub) :
    Independent (acknowledge len) s 0 s (flushEvents len ++ [.send [chr '+']]) :=
  fun c => acknowledge_eq len (s.on c)

theorem independent_gdbTransmitPacket (s : Stub) :
    Independent gdbTransmitPacket s () s [.send (s.packet.take s.len)] := fun _ => rfl

/-- The steps of the stub are all shown. -/
theorem plainProperty_shown :
    PlainProperty fun {α : Type} (m : GdbM α) => ∀ g, ∀ e ∈ (m g).events, shown e = true where
  pure := fun _ _ _ he => by cases he
  bind := fun hm hf g e he => by
    rcases mem_events_bind he with hfirst | ⟨a, -, hsecond⟩
    · exact hm g e hfirst
    · exact hf a _ e hsecond
  emit := fun e he g e' he' => by
    cases List.mem_singleton.mp he'
    cases e <;> first | rfl | cases he
  get := fun _ _ he => by cases he
  modify := fun _ _ _ he => by cases he
  throw := fun _ _ _ he => by cases he

/-- The answer to a request that is not supported. -/
theorem independent_gdbSendData (s : Stub) :
    Independent (gdbSendData []) s ()
      ⟨s.targetException, overwrite s.packet 0 (frame [] ++ [0]), 4⟩ (replyEvents [[]]) := by
  intro c
  have hrun := gdbSendData_runs (s.on c) (List.forall_mem_nil (· ≠ 0))
  have hevents : (gdbSendData [] (s.on c)).events = replyEvents [[]] := by
    rw [← hrun.events]
    exact (List.filter_eq_self.mpr fun e he => plainProperty_shown.gdbSendData [] _ e he).symm
  have hvalue := hrun.value
  have hstate := hrun.state
  generalize gdbSendData [] (s.on c) = o at hevents hvalue hstate ⊢
  obtain ⟨value, state, events⟩ := o
  cases hevents
  cases hvalue
  cases hstate
  rfl

theorem flushEvents_trace (len : Nat) : (flushEvents len).filter GdbEvent.isTrace = [] := by
  unfold flushEvents
  split <;> rfl

/-- A token without a command does not touch the processor. -/
theorem act_independent (cfg : GdbConfig) {a : Arrival} (hnone : a.command? = none) (len : Nat)
    (s : Stub) :
    ∃ len' s' es, Independent (a.token.act cfg a.locals a.behind len) s len' s' es ∧
      es.filter GdbEvent.isTrace = [] := by
  obtain ⟨t, u, behind⟩ := a
  cases t with
  | ack => exact ⟨_, _, _, independent_handleError len s, flushEvents_trace len⟩
  | retransmission =>
      refine ⟨_, _, _, (independent_handleError len s).bind
        ((independent_gdbTransmitPacket s).bind (independent_pure _ _)), ?_⟩
      rw [List.filter_append, flushEvents_trace]
      rfl
  | packet yytext =>
      have hact {s' : Stub} {es : List GdbEvent}
          (hanalysis : Independent (gdbPacketAnalysis cfg u (yytext ++ 0 :: behind) yytext.length)
            s () s' es) (htrace : es.filter GdbEvent.isTrace = []) :
          ∃ len' s' es,
            Independent ((ScannerToken.packet yytext).act cfg u behind len) s len' s' es ∧
            es.filter GdbEvent.isTrace = [] := by
        refine ⟨_, _, _, (independent_handleError len s).bind
          (hanalysis.bind (independent_pure _ _)), ?_⟩
        rw [List.filter_append, List.filter_append, flushEvents_trace, htrace]
        rfl
      rw [gdbPacketAnalysis_analysed] at hact
      unfold Arrival.command? at hnone
      dsimp only at hnone
      cases hanalysed : analysed u (yytext ++ 0 :: behind) yytext.length with
      | none =>
          rw [hanalysed] at hact
          exact hact (independent_gdbEmit _ s) rfl
      | some found =>
          obtain ⟨index, data⟩ := found
          rw [hanalysed] at hact hnone
          have hhandler : handler index = none := Option.map_eq_none_iff.mp hnone
          have hdispatch : dispatch cfg u index data = gdbSendData [] := by
            rw [dispatch, hhandler]
          dsimp only at hact
          rw [hdispatch] at hact
          exact hact ((independent_gdbEmit _ s).bind (independent_gdbSendData s)) rfl
  | char c =>
      show ∃ len' s' es, Independent (addCharacterToError len) s len' s' es ∧ _
      unfold addCharacterToError
      split
      · refine ⟨_, _, _, (independent_handleError len s).bind
          ((independent_gdbEmit _ s).bind (independent_pure _ _)), ?_⟩
        rw [List.filter_append, flushEvents_trace]
        rfl
      · exact ⟨_, _, _, (independent_pure len s).bind
          ((independent_gdbEmit _ s).bind (independent_pure _ _)), rfl⟩
  | echo c => exact ⟨_, _, _, independent_pure len s, rfl⟩

end

/-! ## The section of the gdb listener -/

section

variable {cfg : GdbConfig} {u : GdbLocals} {g : Gdb}

theorem contLook_ok (instruction : BitVec 32) (g : Gdb) :
    (contLook instruction g).value = .ok (lookAhead instruction g.arm) ∧
      (contLook instruction g).state = g := by
  have hrun : Runs shown (contLook instruction) g (.ok (lookAhead instruction g.arm)) g
      [.arm (lookEvent instruction g.arm)] :=
    (gdbEmit_quiet g rfl).okQuietBind <|
      (liftArm_runs g (armReadRegister_runs 15 g.arm)).okQuietBind <|
      (liftArm_runs g (armReadWord_runs g.arm.fetchAddress instruction g.arm)).okBindQuiet <|
      (gdbEmit_quiet g rfl).okQuietBind (Runs.okPure _ _ g)
  exact ⟨hrun.value, hrun.state⟩

theorem contStep_ok (cfg : GdbConfig) (u : GdbLocals) (k : Nat) (g : Gdb) :
    (contStep cfg u k g).value = .ok () ∧
      (contStep cfg u k g).state = g.stepped cfg.host (u.steps k) := by
  have hrun : Runs shown (contStep cfg u k) g (.ok ()) (g.stepped cfg.host (u.steps k))
      (stepEvents cfg.host (u.steps k) g.arm) :=
    (liftArmStep_runs cfg.host (u.steps k) g).okBindQuiet (modifyGdb_runs _ _)
  exact ⟨hrun.value, hrun.state⟩

/-- An iteration of the loop, in its two parts. -/
theorem contLoop_succ (cfg : GdbConfig) (u : GdbLocals) (fuel k : Nat) (instruction : BitVec 32) :
    contLoop cfg u (fuel + 1) k instruction = (do
      let w ← contLook instruction
      if w &&& 0xFFF000F0 = 0xE7F000F0 then return ()
      else do
        contStep cfg u k
        contLoop cfg u fuel (k + 1) w) := by
  rw [contLoop]
  simp only [contLook, contStep, LawfulMonad.bind_assoc, LawfulMonad.pure_bind]

theorem contLoop_refuel (n fuel k : Nat) (instruction : BitVec 32) :
    contLoop cfg (u.refuel n) fuel k instruction = contLoop cfg u fuel k instruction := by
  induction fuel generalizing k instruction with
  | zero => rfl
  | succ fuel ih =>
      rw [contLoop_succ, contLoop_succ]
      simp only [ih]
      rfl

end

section

variable (cfg : GdbConfig) (command : Command) (data : List Byte) (u : GdbLocals) (g : Gdb)

/-- What has been done of the command in `g` when the listener is at a point, with the state `g'`
and the events `es` so far. -/
def Reached (g' : Gdb) (es : List GdbEvent) : GdbPoint → Prop
  | .handling command' data' u' =>
      command' = command ∧ data' = data ∧ u' = u ∧ es = [] ∧ g' = g
  | .looking u' k instruction =>
      u' = u ∧ command = .cont ∧ g'.arm = g.arm.after cfg.host u.steps k ∧
        ∀ n, contLoop cfg u (n + k) 0 u.instruction g
          = let o := contLoop cfg u n k instruction g'
            ⟨o.value, o.state, es ++ o.events⟩
  | .stepping u' k instruction =>
      u' = u ∧ command = .cont ∧ g'.arm = g.arm.after cfg.host u.steps k ∧
        ∀ n, contLoop cfg u (n + k + 1) 0 u.instruction g
          = let o := (contStep cfg u k >>= fun _ => contLoop cfg u n (k + 1) instruction) g'
            ⟨o.value, o.state, es ++ o.events⟩
  | .reporting => command = .cont ∧ ∃ n, contLoop cfg u n 0 u.instruction g = ⟨.ok (), g', es⟩
  | .returning => ∃ n, command.run cfg (u.refuel n) data g = ⟨.ok (), g', es⟩
  | .aborted fault => command ≠ .cont ∧ command.run cfg u data g = ⟨.error fault, g', es⟩
  | _ => False

/-- How far a critical section of the gdb listener has come that began with `l` and `shared`. -/
structure GdbProgress (l : GdbListener) (shared : Shared) (es : List GdbEvent)
    (x : GdbListener × Shared) : Prop where
  len : x.1.len = l.len
  input : x.1.input = l.input
  sent : x.1.sent = l.sent ++ sends es
  trace : x.2.trace = shared.trace ++ es.filter GdbEvent.isTrace
  point : Reached cfg command data u (l.stub.on shared.core) (x.1.stub.on x.2.core) es x.1.point

end

section

variable {cfg : GdbConfig} {command : Command} {data : List Byte} {u : GdbLocals}
  {l : GdbListener} {shared : Shared} {es : List GdbEvent} {x y : GdbListener × Shared}

/-- A handler that returns. -/
theorem handled {s : Stub} {len : Nat} {input : List Arrival} {sent : List (List Byte)}
    (hcont : command ≠ .cont)
    (hok : (command.run cfg u data (s.on shared.core)).value = .ok ()) :
    let o := command.run cfg u data (s.on shared.core)
    GdbShared cfg (⟨.handling command data u, s, len, input, sent⟩, shared)
      (⟨.returning, o.state.stub, len, input, sent ++ sends o.events⟩,
        ⟨o.state.arm, shared.trace ++ o.events.filter GdbEvent.isTrace⟩) := by
  let l : GdbListener := ⟨.handling command data u, s, len, input, sent⟩
  have hhandle : GdbShared cfg (l, shared)
      (l.after shared (command.run cfg u data (s.on shared.core)) fun _ => .returning) :=
    .handle rfl hcont
  unfold GdbListener.after at hhandle
  rw [hok] at hhandle
  exact hhandle

/-- The bookkeeping of a step. -/
theorem GdbProgress.after {α : Type} {o : Outcome Gdb GdbEvent (Except Fault α)}
    {next : α → GdbPoint} (h : GdbProgress cfg command data u l shared es x)
    (hpoint : Reached cfg command data u (l.stub.on shared.core) o.state (es ++ o.events)
      (x.1.after x.2 o next).1.point) :
    GdbProgress cfg command data u l shared (es ++ o.events) (x.1.after x.2 o next) where
  len := h.len
  input := h.input
  sent := by
    show x.1.sent ++ sends o.events = _
    rw [h.sent, sends_append, List.append_assoc]
  trace := by
    show x.2.trace ++ o.events.filter GdbEvent.isTrace = _
    rw [h.trace, List.filter_append, List.append_assoc]
  point := by
    have hstate : (x.1.after x.2 o next).1.stub.on (x.1.after x.2 o next).2.core = o.state :=
      o.state.stub_on
    rw [hstate]
    exact hpoint

/-- Where a program that returned goes on. -/
theorem after_point {α : Type} {o : Outcome Gdb GdbEvent (Except Fault α)} {next : α → GdbPoint}
    {a : α} (h : o.value = .ok a) : (l.after shared o next).1.point = next a := by
  rw [GdbListener.after, h]

/-- One step inside the section. -/
theorem gdbProgress_step (h : GdbProgress cfg command data u l shared es x)
    (hstep : GdbShared cfg x y) : ∃ es', GdbProgress cfg command data u l shared es' y := by
  have hreached := h.point
  cases hstep with
  | @handle l' shared' command' data' u' hpoint hcont =>
      rw [hpoint] at hreached
      obtain ⟨rfl, rfl, rfl, rfl, hg⟩ := hreached
      refine ⟨_, h.after ?_⟩
      rw [hg]
      -- the fuel matters for `cont` only
      have hrun : command'.run cfg (u'.refuel u'.fuel) data' (l.stub.on shared.core)
          = command'.run cfg u' data' (l.stub.on shared.core) := rfl
      cases hvalue : (command'.run cfg u' data' (l.stub.on shared.core)).value with
      | ok a =>
          rw [after_point hvalue]
          refine ⟨u'.fuel, hrun.trans ?_⟩
          rw [List.nil_append, ← hvalue]
      | error fault =>
          rw [GdbListener.after, hvalue]
          refine ⟨hcont, ?_⟩
          rw [List.nil_append, ← hvalue]
  | @enter l' shared' data' u' hpoint =>
      rw [hpoint] at hreached
      obtain ⟨rfl, rfl, rfl, rfl, hg⟩ := hreached
      refine ⟨[], h.len, h.input, h.sent, h.trace, rfl, rfl, ?_, fun n => ?_⟩
      · rw [hg]
        rfl
      · rw [hg]
        rfl
  | @look l' shared' u' k instruction hpoint =>
      rw [hpoint] at hreached
      obtain ⟨rfl, rfl, harm, hloop⟩ := hreached
      obtain ⟨hvalue, hstate⟩ := contLook_ok instruction (l'.stub.on shared'.core)
      refine ⟨_, h.after ?_⟩
      rw [after_point hvalue, hstate]
      have hbind (n : Nat) := bind_of_ok (f := fun w => if w &&& 0xFFF000F0 = 0xE7F000F0 then
        (return () : GdbM Unit)
        else contStep cfg u' k >>= fun _ => contLoop cfg u' n (k + 1) w) hvalue
      by_cases hbreak :
          lookAhead instruction (l'.stub.on shared'.core).arm &&& 0xFFF000F0 = 0xE7F000F0
      · rw [if_pos hbreak]
        refine ⟨rfl, 1 + k, ?_⟩
        have hnext := hloop 1
        rw [contLoop_succ, hbind 0, if_pos hbreak, hstate] at hnext
        rw [hnext]
        exact congrArg (Outcome.mk _ _) (congrArg (es ++ ·) (List.append_nil _))
      · rw [if_neg hbreak]
        refine ⟨rfl, rfl, harm, fun n => ?_⟩
        have hcount : n + k + 1 = n + 1 + k := by omega
        have hnext := hloop (n + 1)
        rw [contLoop_succ, hbind n, if_neg hbreak, hstate] at hnext
        rw [hcount, hnext]
        simp only [List.append_assoc]
  | @step l' shared' u' k instruction hpoint =>
      rw [hpoint] at hreached
      obtain ⟨rfl, rfl, harm, hloop⟩ := hreached
      obtain ⟨hvalue, hstate⟩ := contStep_ok cfg u' k (l'.stub.on shared'.core)
      refine ⟨_, h.after ?_⟩
      rw [after_point hvalue]
      refine ⟨rfl, rfl, ?_, fun n => ?_⟩
      · rw [hstate, ArmCore.after_succ, ← harm]
        rfl
      · have hnext := hloop n
        rw [bind_of_ok hvalue] at hnext
        rw [← Nat.add_assoc, hnext]
        simp only [List.append_assoc]
  | @report l' shared' hpoint =>
      rw [hpoint] at hreached
      obtain ⟨rfl, n, hloop⟩ := hreached
      have hvalue := (gdbSendStopReason_runs (l'.stub.on shared'.core)).value
      refine ⟨_, h.after ?_⟩
      rw [after_point hvalue]
      refine ⟨n, ?_⟩
      have hok : (contLoop cfg (u.refuel n) n 0 u.instruction (l.stub.on shared.core)).value
          = .ok () := by rw [contLoop_refuel, hloop]
      have hcont : Command.cont.run cfg (u.refuel n) data
          = contLoop cfg (u.refuel n) n 0 u.instruction >>= fun _ => gdbSendStopReason := rfl
      rw [hcont, bind_of_ok hok, contLoop_refuel, hloop, ← hvalue]

theorem gdbOwn_scanning {l l' : GdbListener} (h : GdbOwn cfg l l') : l.point = .scanning := by
  cases h <;> rfl

/-- A section, as far as it has come. -/
theorem gdbBody_progress {s : Stub} {len : Nat} {input : List Arrival} {sent : List (List Byte)}
    (hbody : Body (listeners cfg) .gdb
      (⟨.handling command data u, s, len, input, sent⟩, shared) x) :
    ∃ es, GdbProgress cfg command data u ⟨.handling command data u, s, len, input, sent⟩ shared
      es x := by
  induction hbody with
  | refl =>
      refine ⟨[], rfl, rfl, (List.append_nil _).symm, (List.append_nil _).symm, ?_⟩
      exact ⟨rfl, rfl, rfl, rfl, rfl⟩
  | @tail x y _ hstep ih =>
      obtain ⟨es, hes⟩ := ih
      rcases hstep with ⟨hown, -⟩ | hshared
      · -- the scanner is not at work inside the section
        have hreached := hes.point
        rw [gdbOwn_scanning hown] at hreached
        exact hreached.elim
      · exact gdbProgress_step hes hshared

/-- A whole section carries out its command. -/
theorem gdbSection {s : Stub} {len : Nat} {input : List Arrival} {sent : List (List Byte)}
    {t : GdbListener} {shared' : Shared}
    (hbody : Body (listeners cfg) .gdb (⟨.handling command data u, s, len, input, sent⟩, shared)
      (t, shared')) (hpoint : t.point = .returning) :
    ∃ n es, command.run cfg (u.refuel n) data (s.on shared.core)
        = ⟨.ok (), t.stub.on shared'.core, es⟩ ∧
      t.len = len ∧ t.input = input ∧ t.sent = sent ++ sends es ∧
      shared'.trace = shared.trace ++ es.filter GdbEvent.isTrace := by
  obtain ⟨es, hes⟩ := gdbBody_progress hbody
  have hreached := hes.point
  rw [show (t, shared').1.point = .returning from hpoint] at hreached
  obtain ⟨n, hrun⟩ := hreached
  exact ⟨n, es, hrun, hes.len, hes.input, hes.sent, hes.trace⟩

end

/-! ## The section of the irq listener -/

/-- What has been done of the exception `irq` when the listener is at a point. -/
def Raised (irq : BitVec 8) (shared shared' : Shared) : IrqPoint → Prop
  | .raising irq' => irq' = irq ∧ shared' = shared
  | .resetting => (irq.toNat : Int) = RESET ∧ shared' = shared.after ((do
      emit (.exception irq)
      armWriteCpsr (0x1d3 ||| Exception_bit_9) : ArmM Unit) shared.core)
  | .returning => shared' = shared.after (armException irq shared.core)
  | _ => False

section

variable {irq : BitVec 8} {shared shared' : Shared} {connections : List (List (BitVec 8))}
  {x y : IrqListener × Shared}

theorem armException_ignore (hirq : (irq.toNat : Int) ≠ RESET) :
    armException irq = emit (.exception irq) := by
  rw [armException, if_neg hirq]
  exact bind_pure (emit (.exception irq) : ArmM Unit)

/-- RESET in two parts. -/
theorem armException_parts (hirq : (irq.toNat : Int) = RESET) :
    armException irq = (do
      emit (.exception irq)
      armWriteCpsr (0x1d3 ||| Exception_bit_9)) >>= fun _ => armWriteUsrRegister 15 0 := by
  rw [armException, if_pos hirq, LawfulMonad.bind_assoc]

/-- What is shared after two programs. -/
theorem Shared.after_bind {α β : Type} (shared : Shared) (m : ArmM α) (f : ArmM β) :
    (shared.after (m shared.core)).after (f (shared.after (m shared.core)).core)
      = shared.after ((m >>= fun _ => f) shared.core) := by
  show (⟨_, (shared.trace ++ (m shared.core).events.map GdbEvent.arm) ++ _⟩ : Shared) = ⟨_, _⟩
  rw [List.append_assoc, ← List.map_append]
  rfl

theorem raised_step (hx : x.1.connections = connections)
    (h : Raised irq shared x.2 x.1.point) (hstep : IrqShared x y) :
    y.1.connections = connections ∧ Raised irq shared y.2 y.1.point := by
  cases hstep with
  | ignore hirq =>
      obtain ⟨rfl, rfl⟩ := h
      refine ⟨hx, ?_⟩
      rw [← armException_ignore hirq]
      rfl
  | reset hirq =>
      obtain ⟨rfl, rfl⟩ := h
      exact ⟨hx, hirq, rfl⟩
  | pc =>
      obtain ⟨hirq, rfl⟩ := h
      refine ⟨hx, ?_⟩
      show Shared.after _ _ = shared.after (armException irq shared.core)
      rw [armException_parts hirq, Shared.after_bind]

/-- An exception other than RESET leaves the processor as it is, at every point. -/
theorem Raised.core {point : IrqPoint} (h : Raised irq shared shared' point)
    (hirq : (irq.toNat : Int) ≠ RESET) : shared'.core = shared.core := by
  cases point with
  | raising => exact congrArg Shared.core h.2
  | resetting => exact absurd h.1 hirq
  | returning =>
      have hshared : shared' = shared.after (armException irq shared.core) := h
      rw [hshared, armException_ignore hirq]
      rfl
  | _ => exact h.elim

theorem irqOwn_reading {l l' : IrqListener} (h : IrqOwn l l') : l.point = .reading := by
  cases h <;> rfl

/-- A section, as far as it has come. -/
theorem irqBody_raised {cfg : GdbConfig}
    (hbody : Body (listeners cfg) .irq (⟨.raising irq, connections⟩, shared) x) :
    x.1.connections = connections ∧ Raised irq shared x.2 x.1.point := by
  induction hbody with
  | refl => exact ⟨rfl, rfl, rfl⟩
  | @tail x y _ hstep ih =>
      obtain ⟨hconnections, hreached⟩ := ih
      rcases hstep with ⟨hown, -⟩ | hshared
      · rw [irqOwn_reading hown] at hreached
        exact hreached.elim
      · exact raised_step hconnections hreached hshared

/-- A whole section raises its exception. -/
theorem irqSection {cfg : GdbConfig} {t : IrqListener}
    (hbody : Body (listeners cfg) .irq (⟨.raising irq, connections⟩, shared) (t, shared'))
    (hpoint : t.point = .returning) :
    t.connections = connections ∧ shared' = shared.after (armException irq shared.core) := by
  obtain ⟨hconnections, hreached⟩ := irqBody_raised hbody
  rw [show (t, shared').1.point = .returning from hpoint] at hreached
  exact ⟨hconnections, hreached⟩

end

/-! ## Between two sections -/

/-- The gdb listener after `items`, which left the error length `len` and sent `sent`. -/
inductive GdbBetween (input : List Arrival) (items : List Item) (len : Nat)
    (sent : List (List Byte)) : GdbListener → Prop
  | scanning {s : Stub} {done rest : List Arrival}
      (htokens : SameTokens done (items.filterMap Item.token?)) (hinput : input = done ++ rest) :
      GdbBetween input items len sent ⟨.scanning, s, len, rest, sent⟩
  /-- One more packet is acknowledged and waits for the lock. -/
  | waiting {s : Stub} {done rest : List Arrival} {a : Arrival} {command : Command}
      {data : List Byte} (htokens : SameTokens done (items.filterMap Item.token?))
      (hinput : input = done ++ a :: rest) (hcommand : a.command? = some (command, data)) :
      GdbBetween input items len sent ⟨.waiting command data a.locals, s, 0, rest,
        sent ++ sends (flushEvents len ++ [.send [chr '+']])⟩
  | ended {s : Stub} (htokens : SameTokens input (items.filterMap Item.token?)) :
      GdbBetween input items len sent ⟨.ended, s, 0, [], sent ++ sends (flushEvents len)⟩

/-- The irq listener after `items`. -/
inductive IrqBetween (connections : List (List (BitVec 8))) (items : List Item) :
    IrqListener → Prop
  | reading {rest : List (List (BitVec 8))}
      (hbytes : items.filterMap Item.exception? ++ rest.flatten = connections.flatten) :
      IrqBetween connections items ⟨.reading, rest⟩
  | waiting {irq : BitVec 8} {rest : List (List (BitVec 8))}
      (hbytes : items.filterMap Item.exception? ++ irq :: rest.flatten = connections.flatten) :
      IrqBetween connections items ⟨.waiting irq, rest⟩

/-- `items`, one after the other, lead from `g` to `q`: they leave its stub and its processor, and
what they emit is its trace and what its gdb listener has sent. The tokens among them are the first
ones of `input`, the exceptions the first ones of `connections`, as far as the listeners have
come. -/
structure Explained (cfg : GdbConfig) (g : Gdb) (input : List Arrival)
    (connections : List (List (BitVec 8))) (items : List Item)
    (q : Quiescent Listener Shared Listener.State) : Prop where
  run : ∃ len es, performAll cfg items 0 g = ⟨.ok len, (gdbOf q).stub.on q.state.core, es⟩ ∧
    q.state.trace = es.filter GdbEvent.isTrace ∧
    GdbBetween input items len (sends es) (gdbOf q)
  irq : IrqBetween connections items (irqOf q)

section

variable {cfg : GdbConfig} {g : Gdb} {input : List Arrival}
  {connections : List (List (BitVec 8))} {items : List Item}
  {q q' : Quiescent Listener Shared Listener.State}

theorem IrqBetween.token {l : IrqListener} (h : IrqBetween connections items l) (a : Arrival) :
    IrqBetween connections (items ++ [.token a]) l := by
  have hexceptions : (items ++ [Item.token a]).filterMap Item.exception?
      = items.filterMap Item.exception? := by
    rw [List.filterMap_append]
    exact List.append_nil _
  cases h with
  | reading hbytes => exact .reading (by rw [hexceptions]; exact hbytes)
  | waiting hbytes => exact .waiting (by rw [hexceptions]; exact hbytes)

theorem GdbBetween.exception {len : Nat} {sent : List (List Byte)} {l : GdbListener}
    (h : GdbBetween input items len sent l) (irq : BitVec 8) :
    GdbBetween input (items ++ [.exception irq]) len sent l := by
  have htokens : (items ++ [Item.exception irq]).filterMap Item.token?
      = items.filterMap Item.token? := by
    rw [List.filterMap_append]
    exact List.append_nil _
  cases h with
  | scanning hdone hinput => exact .scanning (by rw [htokens]; exact hdone) hinput
  | waiting hdone hinput hcommand =>
      exact .waiting (by rw [htokens]; exact hdone) hinput hcommand
  | ended hdone => exact .ended (by rw [htokens]; exact hdone)

/-- The scanner and the packets without a command. -/
theorem explained_gdbOwn {t : GdbListener} (h : Explained cfg g input connections items q)
    (hown : GdbOwn cfg (gdbOf q) t) :
    ∃ items', Explained cfg g input connections items' (q.set .gdb t) := by
  obtain ⟨⟨len, es, hrun, htrace, hbetween⟩, hirq⟩ := h
  generalize gdbOf q = l at hrun hbetween hown
  cases hown with
  | @token s s' len₁ len' a as sent es' hnone hact =>
      cases hbetween with
      | @scanning _ done _ htokens hinput =>
          obtain ⟨len'', s'', es'', hindependent, hquiet⟩ :=
            act_independent cfg hnone len s
          -- what the step did is what the token does
          have hevents : es' = es'' := congrArg Outcome.events
            ((hact q.state.core).symm.trans (hindependent q.state.core))
          have hperform : (Item.token a).perform cfg len (s.on q.state.core)
              = ⟨.ok len', s'.on q.state.core, es'⟩ := hact q.state.core
          have hnext := performAll_concat (i := .token a) hrun
          rw [hperform] at hnext
          refine ⟨items ++ [.token a], ⟨len', es ++ es', hnext, ?_, ?_⟩, hirq.token a⟩
          · rw [List.filter_append, hevents, hquiet, List.append_nil]
            exact htrace
          · rw [sends_append]
            refine .scanning ?_ (hinput.trans (List.append_cons done a _))
            rw [List.filterMap_append]
            exact htokens.concat a a.locals.fuel
  | @request s s' len₁ len' a as sent es' command data hsome hact =>
      cases hbetween with
      | scanning htokens hinput =>
          have hflush := (hact q.state.core).symm.trans
            (independent_acknowledge len s q.state.core)
          have hlen : len' = 0 := Except.ok.inj (congrArg Outcome.value hflush)
          have hstub : s' = s := congrArg (fun o => o.state.stub) hflush
          have hevents : es' = flushEvents len ++ [.send [chr '+']] :=
            congrArg Outcome.events hflush
          subst hlen hstub hevents
          exact ⟨items, ⟨len, es, hrun, htrace, .waiting htokens hinput hsome⟩, hirq⟩
  | @eof s s' len₁ len' sent es' hact =>
      cases hbetween with
      | scanning htokens hinput =>
          have hflush := (hact q.state.core).symm.trans (independent_handleError len s q.state.core)
          have hlen : len' = 0 := Except.ok.inj (congrArg Outcome.value hflush)
          have hstub : s' = s := congrArg (fun o => o.state.stub) hflush
          have hevents : es' = flushEvents len := congrArg Outcome.events hflush
          subst hlen hstub hevents
          rw [List.append_nil] at hinput
          subst hinput
          exact ⟨items, ⟨len, es, hrun, htrace, .ended htokens⟩, hirq⟩

theorem explained_irqOwn {t : IrqListener} (h : Explained cfg g input connections items q)
    (hown : IrqOwn (irqOf q) t) : Explained cfg g input connections items (q.set .irq t) := by
  obtain ⟨hrun, hirq⟩ := h
  refine ⟨hrun, ?_⟩
  show IrqBetween connections items t
  generalize irqOf q = l at hirq hown
  cases hown with
  | read =>
      cases hirq with
      | reading hbytes => exact .waiting (by simpa using hbytes)
  | accept =>
      cases hirq with
      | reading hbytes => exact .reading (by simpa using hbytes)

/-- A section of the gdb listener. -/
theorem explained_gdbSection {t t' t'' : GdbListener} {shared : Shared}
    (h : Explained cfg g input connections items q) (hlock : GdbLock (gdbOf q) t)
    (hbody : Body (listeners cfg) .gdb (t, q.state) (t', shared)) (hunlock : GdbUnlock t' t'') :
    ∃ items', Explained cfg g input connections items'
      { q.set .gdb t'' with state := shared } := by
  obtain ⟨⟨len, es, hrun, htrace, hbetween⟩, hirq⟩ := h
  generalize gdbOf q = l at hrun hbetween hlock
  cases hlock with
  | lock =>
      cases hbetween with
      | @waiting s done rest a command data htokens hinput hcommand =>
          cases hunlock with
          | unlock =>
              obtain ⟨n, es', hcommandRun, rfl, rfl, rfl, htrace'⟩ := gdbSection hbody rfl
              have hact := act_command_eq len ((command?_refuel a n).trans hcommand) hcommandRun
              have hnext := performAll_concat (i := .token (a.refuel n)) hrun
              rw [show (Item.token (a.refuel n)).perform cfg len _ = _ from hact] at hnext
              refine ⟨items ++ [.token (a.refuel n)], ⟨0, _, hnext, ?_, ?_⟩, hirq.token _⟩
              · show shared.trace = _
                rw [htrace', htrace, List.filter_append, List.filter_append, List.filter_append,
                  flushEvents_trace]
                rfl
              · have hsent : sends (es ++ (flushEvents len ++ [.send [chr '+']] ++ es'))
                    = sends es ++ sends (flushEvents len ++ [.send [chr '+']]) ++ sends es' := by
                  rw [sends_append, sends_append, List.append_assoc]
                rw [hsent]
                refine .scanning ?_ (hinput.trans (List.append_cons done a _))
                rw [List.filterMap_append]
                exact htokens.concat a n

/-- A section of the irq listener. -/
theorem explained_irqSection {t t' t'' : IrqListener} {shared : Shared}
    (h : Explained cfg g input connections items q) (hlock : IrqLock (irqOf q) t)
    (hbody : Body (listeners cfg) .irq (t, q.state) (t', shared)) (hunlock : IrqUnlock t' t'') :
    ∃ items', Explained cfg g input connections items'
      { q.set .irq t'' with state := shared } := by
  obtain ⟨⟨len, es, hrun, htrace, hbetween⟩, hirq⟩ := h
  generalize irqOf q = l at hirq hlock
  cases hlock with
  | @lock irq rest =>
      cases hirq with
      | waiting hbytes =>
          cases hunlock with
          | unlock =>
              obtain ⟨rfl, rfl⟩ := irqSection hbody rfl
              have hexception : liftArm (armException irq) ((gdbOf q).stub.on q.state.core)
                  = ⟨.ok (), (gdbOf q).stub.on (armException irq q.state.core).state,
                    (armException irq q.state.core).events.map .arm⟩ := liftArm_eq _ _
              have hok : (liftArm (armException irq) ((gdbOf q).stub.on q.state.core)).value
                  = .ok () := by rw [hexception]
              have hperform : (Item.exception irq).perform cfg len ((gdbOf q).stub.on q.state.core)
                  = ⟨.ok len, (gdbOf q).stub.on (armException irq q.state.core).state,
                    (armException irq q.state.core).events.map .arm⟩ := by
                have hbind := bind_of_ok (f := fun _ => (pure len : GdbM Nat)) hok
                rw [hexception] at hbind
                exact hbind.trans (congrArg (Outcome.mk _ _) (List.append_nil _))
              have hnext := performAll_concat (i := .exception irq) hrun
              rw [hperform] at hnext
              have harm : ((armException irq q.state.core).events.map GdbEvent.arm).filter
                  GdbEvent.isTrace = (armException irq q.state.core).events.map .arm := by
                rw [List.filter_eq_self]
                intro e he
                obtain ⟨e', -, rfl⟩ := List.mem_map.mp he
                rfl
              refine ⟨items ++ [.exception irq], ⟨len, _, hnext, ?_, ?_⟩, ?_⟩
              · show q.state.trace ++ _ = _
                rw [htrace, List.filter_append, harm]
              · rw [sends_append, (silent_arm _).sends, List.append_nil]
                exact hbetween.exception irq
              · refine .reading ?_
                rw [List.filterMap_append, List.append_assoc]
                exact hbytes

/-- **Steps outside the sections, and whole sections, are explained by one item more, or none.** -/
theorem explained_serial (h : ∃ items, Explained cfg g input connections items q)
    (hserial : Serial (listeners cfg) q q') :
    ∃ items, Explained cfg g input connections items q' := by
  obtain ⟨items, h⟩ := h
  cases hserial with
  | own i hown =>
      cases i with
      | gdb => exact explained_gdbOwn h hown
      | irq => exact ⟨items, explained_irqOwn h hown⟩
  | critical i hlock hbody hunlock =>
      cases i with
      | gdb => exact explained_gdbSection h hlock hbody hunlock
      | irq => exact explained_irqSection h hlock hbody hunlock

theorem explained_start (cfg : GdbConfig) (g : Gdb) (input : List Arrival)
    (connections : List (List (BitVec 8))) :
    Explained cfg g input connections [] (Simulator.start g input connections).toQuiescent := by
  refine ⟨⟨0, [], ?_, rfl, .scanning .nil rfl⟩, .reading rfl⟩
  show (⟨.ok 0, g, []⟩ : Outcome Gdb GdbEvent (Except Fault Nat)) = ⟨.ok 0, g.stub.on g.arm, []⟩
  rw [g.stub_on]

/-- Whenever the lock is free, some items explain where the simulator is. -/
theorem reaches_explained {c : Simulator}
    (hruns : Reaches (listeners cfg) (Simulator.start g input connections) c)
    (hfree : c.owner = none) : ∃ items, Explained cfg g input connections items c.toQuiescent :=
  hruns.invariant (P := fun q => ∃ items, Explained cfg g input connections items q)
    (fun _ _ h hserial => explained_serial h hserial) rfl hfree
    ⟨[], explained_start cfg g input connections⟩

end

end Armator
