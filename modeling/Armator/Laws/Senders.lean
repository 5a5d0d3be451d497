import Armator.Laws.Interleaving
import Armator.System.Senders

set_option autoImplicit false

/-! # Senders of interrupts

Any number of `send_irq` ask for exceptions while a debugger is at work. The exceptions that are
raised are those whose names were given, and the debugger can only notice somebody who asks for a
reset (`senders_heard`).
-/

namespace Armator

open Logged CString Critical

/-- Nobody has asked for a reset. -/
theorem not_reset_of_names {argvs : List (List (List Byte))}
    (hreset : text ['r', 'e', 's', 'e', 't'] ∉ argvs.filterMap asked) :
    ∀ irq ∈ (connectionsOf argvs).flatten, (irq.toNat : Int) ≠ RESET := by
  intro irq hirq heq
  have hone : irq = 1 := BitVec.eq_of_toNat_eq (Int.ofNat_inj.mp heq)
  have hmem := List.mem_map_of_mem (f := armGetExceptionName) hirq
  rw [connectionsOf_names, hone] at hmem
  obtain ⟨name, hname, hsome⟩ := List.mem_map.mp hmem
  cases hsome
  exact hreset hname

/-! ## The law -/

section

variable (cfg : GdbConfig) (g : Gdb) (input : List Arrival) (argvs : List (List (List Byte)))
  (c : Simulator)

/-- **Senders are heard in order, and only a reset is noticed.** Whenever the lock is free, the
exceptions that were raised are the first of those that the senders asked for by name, each once,
and the tokens of the debugger that were acted upon are the first of its input. If nobody asks for
a reset, the stub and the processor are where these tokens alone lead. -/
theorem senders_heard
    (hruns : Reaches (listeners cfg) (Simulator.start g input (connectionsOf argvs)) c)
    (hfree : c.owner = none) :
    ∃ items len es,
      let raised := (items.filterMap Item.exception?).map armGetExceptionName
      let asks := (argvs.filterMap asked).map some
      let after := (gdbOf c.toQuiescent).stub.on c.state.core
      performAll cfg items 0 g = ⟨.ok len, after, es⟩ ∧ raised <+: asks ∧
        (∃ done, done <+: input ∧ SameTokens done (items.filterMap Item.token?)) ∧
        (text ['r', 'e', 's', 'e', 't'] ∉ argvs.filterMap asked →
          (actAll cfg (items.filterMap Item.token?) 0 g).state = after) := by
  obtain ⟨items, hexplained⟩ := reaches_explained hruns hfree
  obtain ⟨len, es, hrun, -, hbetween⟩ := hexplained.run
  refine ⟨items, len, es, hrun, ?_, hbetween.tokens_prefix, fun hreset => ?_⟩
  · rw [← connectionsOf_names]
    exact hexplained.irq.raised_prefix.map _
  · obtain ⟨_, -, hstate, -⟩ := hexplained.tokens (not_reset_of_names hreset)
    exact hstate

/-- `send_irq localhost 4000` while a debugger asks for the reason of a stop. -/
theorem senders_heard_reason :
    let argvs : List (List (List Byte)) :=
      [[text ['s', 'e', 'n', 'd', '_', 'i', 'r', 'q'],
        text ['l', 'o', 'c', 'a', 'l', 'h', 'o', 's', 't'], text ['4', '0', '0', '0']]]
    ∃ c : Simulator,
      Reaches (listeners littleEndian)
        (Simulator.start (idleGdb 64) [reasonArrival] (connectionsOf argvs)) c ∧
      ∃ items len es,
        let raised := (items.filterMap Item.exception?).map armGetExceptionName
        let asks := (argvs.filterMap asked).map some
        let after := (gdbOf c.toQuiescent).stub.on c.state.core
        performAll littleEndian items 0 (idleGdb 64) = ⟨.ok len, after, es⟩ ∧ raised <+: asks ∧
          (∃ done, done <+: [reasonArrival] ∧ SameTokens done (items.filterMap Item.token?)) ∧
          (text ['r', 'e', 's', 'e', 't'] ∉ argvs.filterMap asked →
            (actAll littleEndian (items.filterMap Item.token?) 0 (idleGdb 64)).state = after) := by
  intro argvs
  obtain ⟨c, hruns, hfree⟩ := reasonRun
  exact ⟨c, hruns, senders_heard littleEndian (idleGdb 64) _ argvs c hruns hfree⟩

end

end Armator
