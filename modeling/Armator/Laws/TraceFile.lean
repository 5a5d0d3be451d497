import Armator.Laws.TraceText
import Armator.Semantics.Session
import Armator.System.Watching

set_option autoImplicit false

/-! # The trace file

However a debugger is used and whatever interrupts arrive, the trace file holds the accesses of the
program and nothing else (`trace_shows_program`). If the debugger only looks, the file determines
what becomes of the memory and the registers (`traceFile_determines`). The file is one of its own
(`--trace-file`): on stdout, the default, what `arm_instruction.c` prints and the newlines that the
scanner echoes stand between its lines.
-/

namespace Armator

open Logged CString Critical

/-! ## A debugger that only looks -/

/-- A packet that does not change the processor for the debugger. -/
def Arrival.Looks (a : Arrival) : Prop :=
  ∀ command data, a.command? = some (command, data) → command.patches = false

section

variable {cfg : GdbConfig} {g : Gdb} {input : List Arrival}
  {connections : List (List (BitVec 8))} {items : List Item} {c : Simulator}
  {q : Quiescent Listener Shared Listener.State}

theorem SameTokens.looks {as bs : List Arrival} (h : SameTokens as bs) (has : ∀ a ∈ as, a.Looks) :
    ∀ b ∈ bs, b.Looks := by
  induction h with
  | nil => exact has
  | @cons a b as bs hab _ ih =>
      obtain ⟨ha, has⟩ := List.forall_mem_cons.mp has
      refine List.forall_mem_cons.mpr ⟨?_, ih has⟩
      obtain ⟨n, rfl⟩ := hab
      intro command data hcommand
      rw [command?_refuel] at hcommand
      exact ha command data hcommand

/-- What was taken from the input is a part of it. -/
theorem GdbBetween.looks {len : Nat} {sent : List (List Byte)} {l : GdbListener}
    (h : GdbBetween input items len sent l) (hinput : ∀ a ∈ input, a.Looks) :
    ∀ a ∈ items.filterMap Item.token?, a.Looks := by
  cases h with
  | scanning htokens hsplit | waiting htokens hsplit =>
      refine htokens.looks fun a ha => hinput a ?_
      rw [hsplit]
      exact List.mem_append_left _ ha
  | ended htokens => exact htokens.looks hinput

theorem Command.Does.actions {command : Command} {u : GdbLocals} {ds : List Deed}
    (h : command.Does u ds) (hlooks : command.patches = false) :
    ∃ actions : List Action, ds = actions.map .action := by
  have hsteps (k n : Nat) : stepDeeds u k n
      = ((List.range' k n).map fun i => Action.step (u.steps i)).map .action := by
    rw [stepDeeds, List.map_map]
    rfl
  cases h with
  | step => exact ⟨_, hsteps 0 1⟩
  | cont n => exact ⟨_, hsteps 0 n⟩
  | patch hpatches =>
      rw [hlooks] at hpatches
      cases hpatches
  | look => exact ⟨[], rfl⟩

/-- Without changes by the debugger, the program alone has run. -/
theorem actions_of_does {dss : List (List Deed)} (h : List.Forall₂ Item.Does items dss)
    (hlooks : ∀ a ∈ items.filterMap Item.token?, a.Looks) :
    ∃ actions : List Action, dss.flatten = actions.map .action := by
  induction h with
  | nil => exact ⟨[], rfl⟩
  | @cons i ds items dss hdoes _ ih =>
      have hrest : ∀ a ∈ items.filterMap Item.token?, a.Looks := by
        intro a ha
        refine hlooks a ?_
        rw [List.filterMap_cons]
        split
        · exact ha
        · exact List.mem_cons_of_mem _ ha
      obtain ⟨actions, hactions⟩ := ih hrest
      have hfirst : ∃ actions : List Action, ds = actions.map .action := by
        cases hdoes with
        | exception irq => exact ⟨[.irq irq], rfl⟩
        | command hcommand hds =>
            exact hds.actions (hlooks _ List.mem_cons_self _ _ hcommand)
        | plain => exact ⟨[], rfl⟩
      obtain ⟨first, rfl⟩ := hfirst
      exact ⟨first ++ actions, by rw [List.flatten_cons, hactions, List.map_append]⟩

/-! ## Quiescent simulators -/

/-- What was done, and that nothing else is shown. -/
theorem Explained.deeds (h : Explained cfg g input connections items q) :
    ∃ dss, List.Forall₂ Item.Does items dss ∧
      q.state.core = (deedCalls cfg.host dss.flatten g.arm).state ∧
      ∀ (f : TraceFormat) (s : Tracer), s.enabled = true →
        traceFile f q.state.trace s
          = traceText f (deedCalls cfg.host dss.flatten g.arm).events s := by
  obtain ⟨len, es, hrun, htrace, -⟩ := h.run
  have hok : (performAll cfg items 0 g).value = .ok len := by rw [hrun]
  obtain ⟨dss, hdoes, hmakes⟩ := makes_performAll hok
  have hstate := hmakes.state
  have hevents := hmakes.watches.events
  rw [hrun] at hstate hevents
  refine ⟨dss, hdoes, hstate, fun f s hs => ?_⟩
  have henabled : { s with enabled := true } = s := by
    obtain ⟨lastAddress, enabled, location, traceFlags⟩ := s
    cases hs
    rfl
  have hfile := traceFile_watched (f := f) true q.state.trace s
  rw [henabled, htrace, watched_filter, hevents] at hfile
  rw [htrace, hfile]

/-- A debugger that only looks leaves the run of the program and its trace. -/
theorem reaches_actions
    (hruns : Reaches (listeners cfg) (Simulator.start g input connections) c)
    (hfree : c.owner = none) (hlooks : ∀ a ∈ input, a.Looks) :
    ∃ actions, c.state.core = run cfg.host actions g.arm ∧
      ∀ (f : TraceFormat) (s : Tracer), s.enabled = true →
        traceFile f c.state.trace s = traceText f (calls cfg.host actions g.arm).events s := by
  obtain ⟨items, hexplained⟩ := reaches_explained hruns hfree
  obtain ⟨dss, hdoes, hcore, htext⟩ := hexplained.deeds
  obtain ⟨len, es, -, -, hbetween⟩ := hexplained.run
  obtain ⟨actions, hactions⟩ := actions_of_does hdoes (hbetween.looks hlooks)
  rw [hactions, deedCalls_actions] at hcore htext
  exact ⟨actions, hcore.trans (calls_state _ _ _), htext⟩

theorem Tracer.Full.enabled {f : TraceFormat} {s : Tracer} (h : s.Full f) : s.enabled = true := by
  have hprints := h.memory
  unfold prints at hprints
  exact (Bool.and_eq_true_iff.mp hprints).1

end

/-! ## Two sessions -/

section

variable {cfg : GdbConfig}

def movGdb : Gdb := gdbInitData (movCore 0) []

def stepArrival (u : Locals) : Arrival :=
  ⟨.packet (frame [chr 's']), { zeroLocals with steps := fun _ => u }, []⟩

theorem stepArrival_command (u : Locals) :
    (stepArrival u).command? = some (.step, [0, 0x37, 0x33, 0]) := rfl

theorem stepArrival_looks (u : Locals) : (stepArrival u).Looks := by
  intro command data hcommand
  rw [stepArrival_command] at hcommand
  cases hcommand
  rfl

/-- A step alone. -/
theorem stepRun (u : Locals) : ∃ c : Simulator,
    Reaches (listeners littleEndian) (Simulator.start movGdb [stepArrival u] []) c ∧
      c.owner = none ∧
      c.state.trace = (step littleEndian (stepArrival u).locals movGdb).events.filter
        GdbEvent.isTrace := by
  have hstart : Reaches (listeners littleEndian) (Simulator.start movGdb [stepArrival u] []) _ :=
    Relation.ReflTransGen.refl
  have hrequest := hstart.tail
    (.own Listener.gdb (.request (stepArrival_command u) (independent_acknowledge _ _)))
  have hlock := hrequest.tail (.lock Listener.gdb rfl .lock)
  have hhandle := hlock.tail
    (.shared Listener.gdb rfl (handled (by decide) (step_runs _ _ _).value))
  have hunlock := hhandle.tail (.unlock Listener.gdb rfl .unlock)
  exact ⟨_, hunlock, rfl, rfl⟩

/-- An interrupt in front of the step. -/
theorem interruptRun (u : Locals) : ∃ c : Simulator,
    Reaches (listeners littleEndian) (Simulator.start movGdb [stepArrival u] [[6]]) c ∧
      c.owner = none ∧
      c.state.trace = .arm (.exception 6) :: (step littleEndian (stepArrival u).locals
        movGdb).events.filter GdbEvent.isTrace := by
  have hstart : Reaches (listeners littleEndian) (Simulator.start movGdb [stepArrival u] [[6]]) _ :=
    Relation.ReflTransGen.refl
  have hread := hstart.tail (.own Listener.irq .read)
  have hlock := hread.tail (.lock Listener.irq rfl .lock)
  have hraise := hlock.tail (.shared Listener.irq rfl (.ignore (by decide)))
  have hunlock := hraise.tail (.unlock Listener.irq rfl .unlock)
  have hrequest := hunlock.tail
    (.own Listener.gdb (.request (stepArrival_command u) (independent_acknowledge _ _)))
  have hlock' := hrequest.tail (.lock Listener.gdb rfl .lock)
  have hhandle := hlock'.tail
    (.shared Listener.gdb rfl (handled (by decide) (step_runs _ _ _).value))
  have hunlock' := hhandle.tail (.unlock Listener.gdb rfl .unlock)
  exact ⟨_, hunlock', rfl, rfl⟩

end

/-! ## The laws -/

section

variable (cfg : GdbConfig) (g : Gdb) (input : List Arrival)
  (connections : List (List (BitVec 8))) (c : Simulator)

/-- **The trace file shows the program.** Whenever the lock is free, the file holds what the steps
and the exceptions print, one after the other. What the debugger changes in between is not shown,
and nothing it looks at. -/
theorem trace_shows_program
    (hruns : Reaches (listeners cfg) (Simulator.start g input connections) c)
    (hfree : c.owner = none) :
    ∃ items dss, Explained cfg g input connections items c.toQuiescent ∧
      List.Forall₂ Item.Does items dss ∧
      c.state.core = (deedCalls cfg.host dss.flatten g.arm).state ∧
      ∀ (f : TraceFormat) (s : Tracer), s.enabled = true →
        traceFile f c.state.trace s
          = traceText f (deedCalls cfg.host dss.flatten g.arm).events s := by
  obtain ⟨items, hexplained⟩ := reaches_explained hruns hfree
  obtain ⟨dss, hdeeds⟩ := hexplained.deeds
  exact ⟨items, dss, hexplained, hdeeds⟩

theorem trace_shows_program_interrupt : ∃ c : Simulator,
    Reaches (listeners littleEndian)
        (Simulator.start movGdb [stepArrival ⟨0, 0, 0, 0, 0, 0⟩] [[6]]) c ∧
      ∃ items dss, Explained littleEndian movGdb [stepArrival ⟨0, 0, 0, 0, 0, 0⟩] [[6]] items
          c.toQuiescent ∧
        List.Forall₂ Item.Does items dss ∧
        c.state.core = (deedCalls littleEndian.host dss.flatten movGdb.arm).state ∧
        ∀ (f : TraceFormat) (s : Tracer), s.enabled = true →
          traceFile f c.state.trace s
            = traceText f (deedCalls littleEndian.host dss.flatten movGdb.arm).events s := by
  obtain ⟨c, hruns, hfree, -⟩ := interruptRun ⟨0, 0, 0, 0, 0, 0⟩
  exact ⟨c, hruns, trace_shows_program littleEndian movGdb _ _ c hruns hfree⟩

/-- **The trace file determines the end.** Two sessions in which the debuggers only look, with the
same text, leave the same memory and the same r0 to r14. -/
theorem traceFile_determines (f : TraceFormat) (s : Tracer) (hs : s.Full f)
    (hruns : Reaches (listeners cfg) (Simulator.start g input connections) c)
    (hfree : c.owner = none) (hlooks : ∀ a ∈ input, a.Looks) (cfg' : GdbConfig) (g' : Gdb)
    (input' : List Arrival) (connections' : List (List (BitVec 8))) (c' : Simulator)
    (hruns' : Reaches (listeners cfg') (Simulator.start g' input' connections') c')
    (hfree' : c'.owner = none) (hlooks' : ∀ a ∈ input', a.Looks)
    (hstart : g.arm.traced = g'.arm.traced)
    (htext : traceFile f c.state.trace s = traceFile f c'.state.trace s) :
    c.state.core.traced = c'.state.core.traced := by
  obtain ⟨actions, hcore, hfile⟩ := reaches_actions hruns hfree hlooks
  obtain ⟨actions', hcore', hfile'⟩ := reaches_actions hruns' hfree' hlooks'
  rw [hfile f s hs.enabled, hfile' f s hs.enabled] at htext
  rw [hcore, hcore']
  exact traced_of_told hstart
    (told_of_text hs (calls_printable _ _ _) (calls_printable _ _ _) htext)

/-- Other locals, and an interrupt. -/
theorem traceFile_determines_interrupt : ∃ c c' : Simulator,
    Reaches (listeners littleEndian)
        (Simulator.start movGdb [stepArrival ⟨0, 0, 0, 0, 0, 0⟩] []) c ∧
      Reaches (listeners littleEndian)
        (Simulator.start movGdb [stepArrival ⟨7, 1, 5, 9, 0, 0⟩] [[6]]) c' ∧
      c.state.core.traced = c'.state.core.traced := by
  obtain ⟨c, hruns, hfree, htrace⟩ := stepRun ⟨0, 0, 0, 0, 0, 0⟩
  obtain ⟨c', hruns', hfree', htrace'⟩ := interruptRun ⟨7, 1, 5, 9, 0, 0⟩
  refine ⟨c, c', hruns, hruns', traceFile_determines littleEndian movGdb _ _ c .arm
    ⟨0, true, fun _ => none, 3⟩ ⟨by decide, by decide, nofun⟩ hruns hfree ?_ littleEndian movGdb _ _
    c' hruns' hfree' ?_ rfl ?_⟩
  · exact List.forall_mem_singleton.mpr (stepArrival_looks _)
  · exact List.forall_mem_singleton.mpr (stepArrival_looks _)
  · rw [htrace, htrace']
    decide +kernel

end

end Armator
