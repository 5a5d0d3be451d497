import Armator.Semantics.Run
import Armator.Semantics.Session

set_option autoImplicit false

/-! # Continue and single step

`cont` runs the processor up to the next breakpoint, which it finds by looking at the word the
next fetch will read. It does what as many `s` packets do (`continue_refines_steps`).
-/

namespace Armator

open Logged CString

/-- The word at the pc is in the memory and is executed by `cont`. -/
def ArmCore.Goes (c : ArmCore) : Prop := c.InBounds ∧ ¬ IsBreakpoint c.word

/-- The word at the pc is in the memory and ends `cont`. -/
def ArmCore.Stops (c : ArmCore) : Prop := c.InBounds ∧ IsBreakpoint c.word

instance (c : ArmCore) : Decidable c.Goes := inferInstanceAs (Decidable (_ ∧ _))

instance (c : ArmCore) : Decidable c.Stops := inferInstanceAs (Decidable (_ ∧ _))

/-! ## Fetches -/

/-- The word of an instruction fetch. -/
def Event.fetchedWord? : Event → Option (BitVec 32)
  | .memory _ _ _ .opcodeFetch _ value => some value
  | _ => none

def GdbEvent.fetchedWord? : GdbEvent → Option (BitVec 32)
  | .arm e => e.fetchedWord?
  | _ => none

/-- The words that are executed, one for each call of `arm_step`. -/
def fetchedWords (es : List GdbEvent) : List (BitVec 32) := es.filterMap GdbEvent.fetchedWord?

theorem fetchedWords_of_runs {α : Type} {m : GdbM α} {g g' : Gdb} {r : Except Fault α}
    {es : List GdbEvent} (h : Runs shown m g r g' es) :
    fetchedWords (m g).events = fetchedWords es := by
  rw [← h.events]
  refine (filterMap_shown GdbEvent.fetchedWord? (fun e he => ?_) _).symm
  cases e with
  | arm e =>
      cases e with
      | register cycle type reg mode value => rfl
      | memory => cases he
      | exception => cases he
  | _ => rfl

theorem fetchedWords_append (es es' : List GdbEvent) :
    fetchedWords (es ++ es') = fetchedWords es ++ fetchedWords es' := List.filterMap_append

theorem fetchedWords_replyEvents (ts : List (List Byte)) : fetchedWords (replyEvents ts) = [] := by
  have hstores : ∀ (o : Nat), fetchedWords (textStores o ts) = [] := by
    induction ts with
    | nil => exact fun _ => rfl
    | cons t ts ih => exact fun o => ih _
  rw [replyEvents, fetchedWords_append, hstores]
  rfl

section

variable {c : ArmCore}

/-- The word a step executes. -/
theorem fetchedWords_stepEvents (h : Host) (u : Locals) (hin : c.InBounds) :
    fetchedWords (stepEvents h u c) = [c.word] := by
  have hdata : (stepAccesses h u c).filterMap Event.fetchedWord? = [] := by
    rw [List.filterMap_eq_nil_iff]
    intro e he
    obtain ⟨type, size, value, rfl⟩ := mem_stepAccesses he
    rfl
  have hfetch : (fetchEvent u c).fetchedWord? = some c.word := by
    rw [ArmCore.word, ← memoryReadWord_wordAt (Memory.Inside.le hin) u.instr]
    rfl
  rw [fetchedWords, stepEvents, List.filterMap_map, ← hdata]
  exact List.filterMap_cons_some hfetch

/-- The look-ahead sees the word of the next fetch. -/
theorem lookAhead_eq (instruction : BitVec 32) (hin : c.InBounds) :
    lookAhead instruction c = c.word :=
  memoryReadWord_wordAt (Memory.Inside.le hin) instruction

end

/-! ## The loop -/

/-- The stub after `n` calls of `arm_step` by a handler. -/
def Gdb.steppedBy (h : Host) (us : Nat → Locals) (g : Gdb) : Nat → Gdb
  | 0 => g
  | n + 1 => (g.steppedBy h us n).stepped h (us n)

theorem Gdb.steppedBy_arm (h : Host) (us : Nat → Locals) (g : Gdb) (n : Nat) :
    (g.steppedBy h us n).arm = g.arm.after h us n := by
  induction n with
  | zero => rfl
  | succ n ih =>
      rw [ArmCore.after_succ, ← ih]
      rfl

/-- A step is the same before and after a reply. -/
theorem Gdb.replied_stepped (g : Gdb) (p : List Byte) (h : Host) (u : Locals) :
    (g.replied p).stepped h u = (g.stepped h u).replied p := rfl

/-- A reply is overwritten by the same one. -/
theorem Gdb.replied_replied (g : Gdb) (p : List Byte) : (g.replied p).replied p = g.replied p := by
  have hpacket : overwrite (overwrite g.packet 0 (frame p ++ [0])) 0 (frame p ++ [0])
      = overwrite g.packet 0 (frame p ++ [0]) := by
    have hover := overwrite_overwrite g.packet 0 [] (frame p ++ [0]) (frame p ++ [0])
      (Nat.le_refl _)
    exact hover
  exact congrArg (fun packet => { g.withPacket packet with len := p.length + 4 }) hpacket

section

variable {cfg : GdbConfig} {u : GdbLocals} {g : Gdb} {n : Nat}

/-- **The loop, from the `k`-th step on.** With `m` words to go it takes `m` steps, whatever it
saw before. -/
theorem contLoop_runs (hgo : ∀ i < n, (g.arm.after cfg.host u.steps i).Goes)
    (hstop : (g.arm.after cfg.host u.steps n).Stops) {m k fuel : Nat} (hk : k + m = n)
    (hfuel : m < fuel) (instruction : BitVec 32) :
    ∃ es, Runs shown (contLoop cfg u fuel k instruction) (g.steppedBy cfg.host u.steps k) (.ok ())
        (g.steppedBy cfg.host u.steps n) es ∧
      sends es = [] ∧
      fetchedWords es = (List.range' k m).map fun i => (g.arm.after cfg.host u.steps i).word := by
  obtain ⟨fuel, rfl⟩ := Nat.exists_eq_succ_of_ne_zero (show fuel ≠ 0 by omega)
  induction m generalizing k fuel instruction with
  | zero =>
      have hkn : k = n := hk
      subst hkn
      have hbreak : IsBreakpoint (lookAhead instruction (g.steppedBy cfg.host u.steps k).arm) := by
        rw [Gdb.steppedBy_arm, lookAhead_eq instruction hstop.1]
        exact hstop.2
      exact ⟨_, contLoop_stop cfg u _ hbreak, rfl, rfl⟩
  | succ m ih =>
      have hhere := hgo k (by omega)
      rw [← Gdb.steppedBy_arm] at hhere
      have hbreak : ¬ IsBreakpoint
          (lookAhead instruction (g.steppedBy cfg.host u.steps k).arm) := by
        rw [lookAhead_eq instruction hhere.1]
        exact hhere.2
      obtain ⟨fuel, rfl⟩ := Nat.exists_eq_succ_of_ne_zero (show fuel ≠ 0 by omega)
      obtain ⟨es, hrun, hsends, hwords⟩ := ih (k := k + 1) (by omega)
        (lookAhead instruction (g.steppedBy cfg.host u.steps k).arm) fuel (by omega)
      refine ⟨_, contLoop_go cfg _ hbreak hrun, ?_, ?_⟩
      · have hstep : sends (stepEvents cfg.host (u.steps k) (g.steppedBy cfg.host u.steps k).arm)
            = [] := (silent_arm _).sends
        rw [← List.singleton_append, sends_append, sends_append, hstep, hsends]
        rfl
      · have hlook : fetchedWords
            [.arm (lookEvent instruction (g.steppedBy cfg.host u.steps k).arm)] = [] := rfl
        rw [← List.singleton_append, fetchedWords_append, fetchedWords_append, hlook,
          fetchedWords_stepEvents _ _ hhere.1, hwords, Gdb.steppedBy_arm]
        rfl

end

/-! ## Single steps -/

/-- A packet `s` is one step and its stop reply. -/
theorem actStep_runs (cfg : GdbConfig) (u : GdbLocals) (behind : List Byte) (g : Gdb) :
    Runs shown ((ScannerToken.packet (frame [chr 's'])).act cfg u behind 0) g (.ok 0)
      ((g.stepped cfg.host (u.steps 0)).replied (stopReason 0))
      (.send [chr '+'] :: (stepEvents cfg.host (u.steps 0) g.arm ++ replyEvents [stopReason 0])) := by
  have hpacket : Runs shown (gdbPacketAnalysis cfg u (frame [chr 's'] ++ 0 :: behind)
      (frame [chr 's']).length) g (.ok ()) ((g.stepped cfg.host (u.steps 0)).replied (stopReason 0))
      (.send [chr '+'] :: (stepEvents cfg.host (u.steps 0) g.arm ++ replyEvents [stopReason 0])) :=
    (seals_hex2 [chr 's']).runs (step_runs cfg u g)
  exact (handleError_runs g 0).okBind (hpacket.okBindQuiet (Runs.okPure _ _ _))

section

variable (cfg : GdbConfig) (us : Nat → GdbLocals) (behind : Nat → List Byte) (g : Gdb)

/-- The stub before the `k`-th packet `s`: it may hold the reply to the one before. -/
def BeforeStep (k : Nat) (g' : Gdb) : Prop :=
  g' = g.steppedBy cfg.host (fun i => (us i).steps 0) k ∨
    g' = (g.steppedBy cfg.host (fun i => (us i).steps 0) k).replied (stopReason 0)

theorem actStep_before {k : Nat} {g' : Gdb} (hg : BeforeStep cfg us g k g') :
    ∃ es, Runs shown ((ScannerToken.packet (frame [chr 's'])).act cfg (us k) (behind k) 0) g' (.ok 0)
        ((g.steppedBy cfg.host (fun i => (us i).steps 0) (k + 1)).replied (stopReason 0)) es ∧
      lastReply es = frame (stopReason 0) := by
  have hrun := actStep_runs cfg (us k) (behind k) g'
  -- a reply that is already there is overwritten
  have hstate : (g'.stepped cfg.host ((us k).steps 0)).replied (stopReason 0)
      = (g.steppedBy cfg.host (fun i => (us i).steps 0) (k + 1)).replied (stopReason 0) := by
    rcases hg with rfl | rfl
    · rfl
    · rw [Gdb.replied_stepped, Gdb.replied_replied]
      rfl
  rw [hstate, ← List.cons_append] at hrun
  have hreply : lastReply (replyEvents [stopReason 0]) = frame (stopReason 0) := by decide
  refine ⟨_, hrun, ?_⟩
  rw [lastReply_append (by rw [hreply]; exact List.cons_ne_nil _ _), hreply]

/-- `m + 1` packets `s`, from the `k`-th on. -/
theorem actSteps_runs {m k : Nat} {g' : Gdb} (hg : BeforeStep cfg us g k g') :
    ∃ es, Runs shown (actAll cfg ((List.range' k (m + 1)).map fun i =>
          ⟨.packet (frame [chr 's']), us i, behind i⟩) 0) g' (.ok 0)
        ((g.steppedBy cfg.host (fun i => (us i).steps 0) (k + (m + 1))).replied (stopReason 0)) es ∧
      lastReply es = frame (stopReason 0) := by
  induction m generalizing k g' with
  | zero =>
      obtain ⟨es, hrun, hreply⟩ := actStep_before cfg us behind g hg
      exact ⟨es, hrun.okBindQuiet (Runs.okPure _ _ _), hreply⟩
  | succ m ih =>
      obtain ⟨es, hrun, -⟩ := actStep_before cfg us behind g hg
      obtain ⟨es', hrest, hreply⟩ := ih (k := k + 1) (.inr rfl)
      have hcount : k + (m + 1 + 1) = k + 1 + (m + 1) := by omega
      refine ⟨es ++ es', ?_, ?_⟩
      · rw [hcount]
        exact hrun.okBind hrest
      · rw [lastReply_append (by rw [hreply]; exact List.cons_ne_nil _ _), hreply]

end

/-! ## The law -/

theorem Gdb.steppedBy_congr {h : Host} {us us' : Nat → Locals} (g : Gdb) {n : Nat}
    (hus : ∀ i < n, us i = us' i) : g.steppedBy h us n = g.steppedBy h us' n := by
  induction n with
  | zero => rfl
  | succ n ih =>
      rw [Gdb.steppedBy, Gdb.steppedBy, hus n (Nat.lt_succ_self n),
        ih fun i hi => hus i (Nat.lt_succ_of_lt hi)]

/-- **Continue refines repeated single step.** If the first word at which the loop stops comes up
after `n` steps, `c` leaves the same stub and the same processor as `n` packets `s`, fetches the
words they execute and none that is a breakpoint, and sends the reply that the last of them
sends. -/
theorem continue_refines_steps (cfg : GdbConfig) (u : GdbLocals) (us : Nat → GdbLocals)
    (behind : Nat → List Byte) (g : Gdb) (n : Nat) (hn : 1 ≤ n) (hfuel : n < u.fuel)
    (hus : ∀ i < n, (us i).steps 0 = u.steps i)
    (hgo : ∀ i < n, (g.arm.after cfg.host u.steps i).Goes)
    (hstop : (g.arm.after cfg.host u.steps n).Stops) :
    let o := cont cfg u g
    let o' := actAll cfg
      ((List.range n).map fun i => ⟨.packet (frame [chr 's']), us i, behind i⟩) 0 g
    o.value = .ok () ∧ o'.value = .ok 0 ∧
      fetchedWords o.events
        = (List.range n).map (fun i => (g.arm.after cfg.host u.steps i).word) ∧
      (∀ w ∈ fetchedWords o.events, ¬ IsBreakpoint w) ∧
      o.state.arm = g.arm.after cfg.host u.steps n ∧ o.state = o'.state ∧
      sends o.events = [lastReply o'.events] := by
  intro o o'
  obtain ⟨n, rfl⟩ := Nat.exists_eq_succ_of_ne_zero (show n ≠ 0 by omega)
  obtain ⟨es, hloop, hsends, hwords⟩ := contLoop_runs hgo hstop (Nat.zero_add _) hfuel u.instruction
  -- a step leaves no exception
  have hexception : (g.steppedBy cfg.host u.steps (n + 1)).targetException = 0 := rfl
  have hreason := gdbSendStopReason_runs (g.steppedBy cfg.host u.steps (n + 1))
  rw [hexception] at hreason
  have hcont : Runs shown (cont cfg u) g (.ok ())
      ((g.steppedBy cfg.host u.steps (n + 1)).replied (stopReason 0))
      (es ++ replyEvents [stopReason 0]) := hloop.okBind hreason
  obtain ⟨es', hsteps, hreply⟩ := actSteps_runs cfg us behind g (m := n) (k := 0) (.inl rfl)
  rw [Nat.zero_add, ← List.range_eq_range', g.steppedBy_congr hus] at hsteps
  have hstate : o'.state = (g.steppedBy cfg.host u.steps (n + 1)).replied (stopReason 0) :=
    hsteps.state
  have hfetched : fetchedWords o.events
      = (List.range (n + 1)).map fun i => (g.arm.after cfg.host u.steps i).word := by
    rw [fetchedWords_of_runs hcont, fetchedWords_append, fetchedWords_replyEvents, List.append_nil,
      hwords, List.range_eq_range']
  refine ⟨hcont.value, hsteps.value, hfetched, ?_, ?_, ?_, ?_⟩
  · rw [hfetched]
    intro w hw
    obtain ⟨i, hi, rfl⟩ := List.mem_map.mp hw
    exact (hgo i (List.mem_range.mp hi)).2
  · rw [hcont.state, Gdb.replied_arm, Gdb.steppedBy_arm]
  · rw [hstate]
    exact hcont.state
  · have hlast : lastReply o'.events = frame (stopReason 0) :=
      (lastReply_of_runs hsteps).trans hreply
    rw [sends_of_runs hcont, sends_append, hsends, sends_replyEvents, List.flatten_singleton, hlast]
    rfl

/-- `MOV r0, r0` in front of a breakpoint. -/
def breakpointAhead : ArmCore :=
  let c := executing 0xE1A00000 fun _ => 0
  { c with mem := (memoryWriteWord c.mem 4 0xE7F000F0).2 }

theorem continue_refines_steps_one :
    let g := gdbInitData breakpointAhead []
    let u := { zeroLocals with fuel := 2 }
    let o := cont littleEndian u g
    let o' := actAll littleEndian
      ((List.range 1).map fun _ => ⟨.packet (frame [chr 's']), zeroLocals, []⟩) 0 g
    o.value = .ok () ∧ o'.value = .ok 0 ∧
      fetchedWords o.events
        = (List.range 1).map (fun i => (g.arm.after littleEndian.host u.steps i).word) ∧
      (∀ w ∈ fetchedWords o.events, ¬ IsBreakpoint w) ∧
      o.state.arm = g.arm.after littleEndian.host u.steps 1 ∧ o.state = o'.state ∧
      sends o.events = [lastReply o'.events] :=
  continue_refines_steps littleEndian { zeroLocals with fuel := 2 } (fun _ => zeroLocals)
    (fun _ => []) (gdbInitData breakpointAhead []) 1 (by decide) (by decide) (fun _ _ => rfl)
    (by decide) (by decide)

end Armator
