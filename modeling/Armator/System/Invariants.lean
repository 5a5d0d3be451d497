import Armator.System.Watching

set_option autoImplicit false

/-! # What always holds of the processor

A property of the processor that the steps of the program, the two writes of RESET and the changes
that the commands of the debugger make all keep (`Preserved`) holds in every state of the simulator,
inside critical sections too (`reaches_preserved`). What it asks of the program is asked of the
events that the trace has.
-/

namespace Armator

open Logged CString Critical

/-- `I` is kept by whatever is done to the processor, as long as the events of the program are
`sound` and the debugger sends `allowed` commands only. -/
structure Preserved (h : Host) (sound : Event → Prop)
    (allowed : Command → GdbLocals → List Byte → Prop) (I : ArmCore → Prop) : Prop where
  step : ∀ u c, (∀ e ∈ (armStep h u c).events, sound e) → I c → I (armStep h u c).state
  reset : ∀ c, I c → I (c.setReg 16 0x1d3)
  pc : ∀ c, I c → I (armWriteUsrRegister 15 0 c).state
  register : ∀ command u data r value c, allowed command u data →
    command.mayDo (.register r value) = true → I c → I (c.setReg r value)
  download : ∀ u data g, allowed .writeMemoryBinary u data → I g.arm →
    I (writeMemoryBinary u data g).state.arm

/-- The debugger sends `allowed` commands only. -/
def Arrival.Permitted (allowed : Command → GdbLocals → List Byte → Prop) (a : Arrival) : Prop :=
  ∀ command data, a.command? = some (command, data) → allowed command a.locals data

/-- So does the one that is waited for or handled. -/
def GdbPoint.Permitted (allowed : Command → GdbLocals → List Byte → Prop) : GdbPoint → Prop
  | .waiting command data u | .handling command data u => allowed command u data
  | _ => True

structure GdbListener.Permitted (allowed : Command → GdbLocals → List Byte → Prop)
    (l : GdbListener) : Prop where
  input : ∀ a ∈ l.input, a.Permitted allowed
  point : l.point.Permitted allowed

section

variable {cfg : GdbConfig} {sound : Event → Prop}
  {allowed : Command → GdbLocals → List Byte → Prop} {I : ArmCore → Prop} {u : GdbLocals}
  {data : List Byte} {g : Gdb} {command : Command} {l l' : GdbListener}

/-- Commands that write registers. -/
theorem Preserved.deeds (hI : Preserved cfg.host sound allowed I)
    (hallowed : allowed command u data) (hdownload : command ≠ .writeMemoryBinary)
    {ds : List Deed} (hds : ∀ d ∈ ds, command.mayDo d = true) {c : ArmCore} (hc : I c) :
    I (deedCalls cfg.host ds c).state := by
  induction ds generalizing c with
  | nil => exact hc
  | cons d ds ih =>
      obtain ⟨hd, hrest⟩ := List.forall_mem_cons.mp hds
      refine ih hrest ?_
      cases d with
      | action => cases command <;> cases hd
      | register r value => exact hI.register command u data r value c hallowed hd hc
      | byte =>
          cases command with
          | writeMemoryBinary => exact absurd rfl hdownload
          | _ => cases hd

/-- The events of a step are among those of its handler. -/
theorem mem_step_events {α : Type} {m : ArmM α} {f : α → GdbM Unit} {e : Event}
    (he : e ∈ (m g.arm).events) : .arm e ∈ ((liftArm m >>= f) g).events := by
  have hok : (liftArm m g).value = .ok (m g.arm).value := by rw [liftArm_eq]
  have hevents : (liftArm m g).events = (m g.arm).events.map .arm := by rw [liftArm_eq]
  rw [bind_of_ok hok, hevents]
  exact List.mem_append_left _ (List.mem_map_of_mem he)

/-- Handlers keep it, also those that fail. -/
theorem Preserved.run (hI : Preserved cfg.host sound allowed I)
    (hallowed : allowed command u data) (hcont : command ≠ .cont) (hg : I g.arm)
    (hsound : ∀ e, .arm e ∈ (command.run cfg u data g).events → sound e) :
    I (command.run cfg u data g).state.arm := by
  by_cases hstep : command = .step
  · subst hstep
    have hstate : (Command.step.run cfg u data g).state.arm
        = (armStep cfg.host (u.steps 0) g.arm).state := makes_step.state
    rw [hstate]
    exact hI.step _ _ (fun e he => hsound e (mem_step_events he)) hg
  · cases hpatches : command.patches with
    | false =>
        rw [run_arm hpatches hcont hstep]
        exact hg
    | true =>
        by_cases hdownload : command = .writeMemoryBinary
        · subst hdownload
          exact hI.download u data g hallowed hg
        · obtain ⟨ds, hmay, hstate, -⟩ : ∃ ds, Patched cfg.host command ds g.arm
            (command.run cfg u data g).state.arm := run_patched hpatches
          rw [← hstate]
          exact hI.deeds hallowed hdownload hmay hg

theorem Preserved.gdbShared (hI : Preserved cfg.host sound allowed I)
    {x y : GdbListener × Shared} (h : GdbShared cfg x y) (hl : x.1.Permitted allowed)
    (hsound : ∀ e, .arm e ∈ y.2.trace → sound e) (hcore : I x.2.core) : I y.2.core := by
  have hafter {α : Type} {l : GdbListener} {shared : Shared}
      {o : Outcome Gdb GdbEvent (Except Fault α)} {next : α → GdbPoint} {e : Event}
      (he : .arm e ∈ o.events) : .arm e ∈ (l.after shared o next).2.trace :=
    List.mem_append_right _ (List.mem_filter.mpr ⟨he, rfl⟩)
  cases h with
  | @handle l shared command data u hpoint hcont =>
      have hallowed := hl.point
      rw [hpoint] at hallowed
      exact hI.run (g := l.stub.on shared.core) hallowed hcont hcore
        fun e he => hsound e (hafter he)
  | enter => exact hcore
  | @look l shared u k instruction =>
      have hstate := (contLook_ok instruction (l.stub.on shared.core)).2
      show I (contLook instruction (l.stub.on shared.core)).state.arm
      rw [hstate]
      exact hcore
  | @step l shared u k instruction =>
      have hstate : (contStep cfg u k (l.stub.on shared.core)).state.arm
          = (armStep cfg.host (u.steps k) shared.core).state := (makes_contStep k).state
      show I (contStep cfg u k (l.stub.on shared.core)).state.arm
      rw [hstate]
      exact hI.step _ _ (fun e he => hsound e (hafter
        (mem_step_events (g := l.stub.on shared.core) he))) hcore
  | @report l shared =>
      have hstate := (makes_stopReason cfg.host (l.stub.on shared.core)).state
      show I (gdbSendStopReason (l.stub.on shared.core)).state.arm
      rw [hstate]
      exact hcore

theorem Preserved.irqShared (hI : Preserved cfg.host sound allowed I) {x y : IrqListener × Shared}
    (h : IrqShared x y) (hcore : I x.2.core) : I y.2.core := by
  cases h with
  | ignore => exact hcore
  | reset => exact hI.reset _ hcore
  | pc => exact hI.pc _ hcore

/-! ## The commands of the debugger -/

theorem GdbListener.Permitted.own (hl : l.Permitted allowed) (h : GdbOwn cfg l l') :
    l'.Permitted allowed := by
  cases h with
  | token => exact ⟨(List.forall_mem_cons.mp hl.input).2, trivial⟩
  | request hsome =>
      obtain ⟨ha, has⟩ := List.forall_mem_cons.mp hl.input
      exact ⟨has, ha _ _ hsome⟩
  | eof => exact ⟨List.forall_mem_nil _, trivial⟩

theorem GdbListener.Permitted.lock (hl : l.Permitted allowed) (h : GdbLock l l') :
    l'.Permitted allowed := by
  cases h
  exact ⟨hl.input, hl.point⟩

theorem GdbListener.Permitted.unlock (hl : l.Permitted allowed) (h : GdbUnlock l l') :
    l'.Permitted allowed := by
  cases h
  exact ⟨hl.input, trivial⟩

theorem GdbListener.Permitted.after {α : Type} (hl : l.Permitted allowed) {shared : Shared}
    {o : Outcome Gdb GdbEvent (Except Fault α)} {next : α → GdbPoint}
    (hnext : ∀ a, (next a).Permitted allowed) : (l.after shared o next).1.Permitted allowed := by
  refine ⟨hl.input, ?_⟩
  cases hvalue : o.value with
  | ok a =>
      rw [after_point hvalue]
      exact hnext a
  | error fault =>
      rw [GdbListener.after, hvalue]
      trivial

theorem GdbListener.Permitted.shared {x y : GdbListener × Shared} (hl : x.1.Permitted allowed)
    (h : GdbShared cfg x y) : y.1.Permitted allowed := by
  cases h with
  | handle => exact hl.after fun _ => trivial
  | enter => exact ⟨hl.input, trivial⟩
  | look =>
      refine hl.after fun w => ?_
      split
      · trivial
      · trivial
  | step => exact hl.after fun _ => trivial
  | report => exact hl.after fun _ => trivial

/-! ## The simulator -/

theorem gdbShared_trace {x y : GdbListener × Shared} (h : GdbShared cfg x y) :
    x.2.trace <+: y.2.trace := by
  cases h with
  | enter => exact List.prefix_rfl
  | _ => exact List.prefix_append _ _

theorem irqShared_trace {x y : IrqListener × Shared} (h : IrqShared x y) :
    x.2.trace <+: y.2.trace := by
  cases h <;> exact List.prefix_append _ _

/-- The trace grows. -/
theorem trace_grows {c c' : Simulator} (h : Step (listeners cfg) c c') :
    c.state.trace <+: c'.state.trace := by
  cases h with
  | @shared i t s _ hshared =>
      cases i with
      | gdb => exact gdbShared_trace (x := (gdbOf c.toQuiescent, c.state)) hshared
      | irq => exact irqShared_trace (x := (irqOf c.toQuiescent, c.state)) hshared
  | _ => exact List.prefix_rfl

/-- **What is kept always holds.** -/
theorem reaches_preserved (hI : Preserved cfg.host sound allowed I) {input : List Arrival}
    {connections : List (List (BitVec 8))} {c : Simulator}
    (hruns : Reaches (listeners cfg) (Simulator.start g input connections) c)
    (hsound : ∀ e, .arm e ∈ c.state.trace → sound e)
    (hinput : ∀ a ∈ input, a.Permitted allowed) (hg : I g.arm) : I c.state.core := by
  suffices h : I c.state.core ∧ (gdbOf c.toQuiescent).Permitted allowed from h.1
  induction hruns with
  | refl => exact ⟨hg, hinput, trivial⟩
  | @tail c c' _ hstep ih =>
      -- what is in the trace before the step is in it afterwards
      obtain ⟨hcore, hl⟩ := ih fun e he => hsound e ((trace_grows hstep).subset he)
      have hirq (t : IrqListener) :
          gdbOf (c.toQuiescent.set Listener.irq t) = gdbOf c.toQuiescent :=
        c.toQuiescent.set_threads_of_ne (i := Listener.irq) (by decide) t
      have hgdb (t : GdbListener) : gdbOf (c.toQuiescent.set Listener.gdb t) = t :=
        c.toQuiescent.set_threads_self Listener.gdb t
      cases hstep with
      | @own i t hown =>
          refine ⟨hcore, ?_⟩
          cases i with
          | gdb => exact (hgdb t).symm ▸ hl.own hown
          | irq => exact (hirq t).symm ▸ hl
      | @lock i t _ hlock =>
          refine ⟨hcore, ?_⟩
          cases i with
          | gdb => exact (hgdb t).symm ▸ hl.lock hlock
          | irq => exact (hirq t).symm ▸ hl
      | @shared i t s _ hshared =>
          cases i with
          | gdb =>
              exact ⟨hI.gdbShared hshared hl hsound hcore, (hgdb t).symm ▸ hl.shared hshared⟩
          | irq => exact ⟨hI.irqShared hshared hcore, (hirq t).symm ▸ hl⟩
      | @unlock i t _ hunlock =>
          refine ⟨hcore, ?_⟩
          cases i with
          | gdb => exact (hgdb t).symm ▸ hl.unlock hunlock
          | irq => exact (hirq t).symm ▸ hl

end

end Armator
