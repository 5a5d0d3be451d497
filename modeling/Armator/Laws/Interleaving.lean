import Armator.Laws.Debugging
import Armator.System.Locking

set_option autoImplicit false

/-! # Both listeners at once

However the steps of the two listeners are interleaved, whenever the lock is free the simulator is
where a list of tokens and exceptions leads that are taken one after the other
(`interleaving_sequential`). No exception gets in between two instructions of a `cont`
(`cont_undisturbed`). When the process ends, every token has been acted upon, while exceptions that
came last may be lost (`interleaving_complete`), and the irq listener does not disturb a debugging
session (`session_served_interleaved`).
-/

namespace Armator

open Logged CString Critical

/-! ## Fuel -/

section

variable {cfg : GdbConfig} {u : GdbLocals} {g : Gdb} {len : Nat}

/-- A loop that ended ends the same way with more fuel. -/
theorem contLoop_mono {n m k : Nat} {instruction : BitVec 32} (hnm : n ≤ m)
    (h : (contLoop cfg u n k instruction g).value = .ok ()) :
    contLoop cfg u m k instruction g = contLoop cfg u n k instruction g := by
  induction n generalizing m k instruction g with
  | zero => cases h
  | succ n ih =>
      obtain ⟨m, rfl⟩ := Nat.exists_eq_succ_of_ne_zero (show m ≠ 0 by omega)
      obtain ⟨hlook, hstate⟩ := contLook_ok instruction g
      have hbind (n : Nat) := bind_of_ok (f := fun w => if w &&& 0xFFF000F0 = 0xE7F000F0 then
        (return () : GdbM Unit) else contStep cfg u k >>= fun _ => contLoop cfg u n (k + 1) w) hlook
      rw [contLoop_succ, hbind] at h ⊢
      rw [contLoop_succ, hbind]
      by_cases hbreak : lookAhead instruction g.arm &&& 0xFFF000F0 = 0xE7F000F0
      · rw [if_pos hbreak, if_pos hbreak]
      · rw [if_neg hbreak] at h ⊢
        rw [if_neg hbreak]
        obtain ⟨hvalue, -⟩ := contStep_ok cfg u k (contLook instruction g).state
        have hnext (n : Nat) := bind_of_ok
          (f := fun _ => contLoop cfg u n (k + 1) (lookAhead instruction g.arm)) hvalue
        rw [hnext] at h ⊢
        rw [hnext, ih (Nat.le_of_succ_le_succ hnm) h]

/-- Two runs of `cont` that both return are the same. -/
theorem cont_refuel {n m : Nat} (hn : (cont cfg (u.refuel n) g).value = .ok ())
    (hm : (cont cfg (u.refuel m) g).value = .ok ()) :
    cont cfg (u.refuel n) g = cont cfg (u.refuel m) g := by
  have hloop {n : Nat} (h : (cont cfg (u.refuel n) g).value = .ok ()) :
      (contLoop cfg u n 0 u.instruction g).value = .ok () := by
    obtain ⟨_, hok, -⟩ := bind_ok h
    rw [contLoop_refuel] at hok
    exact hok
  have hsame : contLoop cfg u n 0 u.instruction g = contLoop cfg u m 0 u.instruction g := by
    rcases Nat.le_total n m with hle | hle
    · exact (contLoop_mono hle (hloop hn)).symm
    · exact contLoop_mono hle (hloop hm)
  have hcont (n : Nat) : cont cfg (u.refuel n)
      = contLoop cfg u n 0 u.instruction >>= fun _ => gdbSendStopReason :=
    congrArg (· >>= fun _ => gdbSendStopReason) (contLoop_refuel n n 0 u.instruction)
  rw [hcont, hcont, bind_of_ok (hloop hn), bind_of_ok (hloop hm), hsame]

theorem run_refuel {command : Command} {data : List Byte} {n m : Nat}
    (hn : (command.run cfg (u.refuel n) data g).value = .ok ())
    (hm : (command.run cfg (u.refuel m) data g).value = .ok ()) :
    command.run cfg (u.refuel n) data g = command.run cfg (u.refuel m) data g := by
  cases command with
  | cont => exact cont_refuel hn hm
  | _ => rfl

/-- A packet that was acted upon has run its command. -/
theorem act_command_ok {a : Arrival} {command : Command} {data : List Byte} {n : Nat}
    (h : a.command? = some (command, data))
    (hok : (a.token.act cfg a.locals a.behind len g).value = .ok n) :
    (command.run cfg a.locals data g).value = .ok () := by
  rw [act_command h] at hok
  have hack : (acknowledge len g).value = .ok 0 := by rw [acknowledge_eq]
  rw [bind_of_ok hack, acknowledge_eq] at hok
  obtain ⟨_, hrun, -⟩ := bind_ok hok
  exact hrun

/-- Fuel has no part in a packet without a command. -/
theorem act_refuel_none {a : Arrival} (hnone : a.command? = none) (n : Nat) :
    a.token.act cfg (a.locals.refuel n) a.behind len = a.token.act cfg a.locals a.behind len := by
  obtain ⟨t, u, behind⟩ := a
  cases t with
  | packet yytext =>
      have hanalysis : gdbPacketAnalysis cfg (u.refuel n) (yytext ++ 0 :: behind) yytext.length
          = gdbPacketAnalysis cfg u (yytext ++ 0 :: behind) yytext.length := by
        rw [gdbPacketAnalysis_analysed, gdbPacketAnalysis_analysed, analysed_refuel]
        unfold Arrival.command? at hnone
        dsimp only at hnone
        cases hanalysed : analysed u (yytext ++ 0 :: behind) yytext.length with
        | none => rfl
        | some found =>
            rw [hanalysed] at hnone
            have hhandler : handler found.1 = none := Option.map_eq_none_iff.mp hnone
            dsimp only
            rw [dispatch, dispatch, hhandler]
      show (do
        let len ← handleError len
        gdbPacketAnalysis cfg (u.refuel n) (yytext ++ 0 :: behind) yytext.length
        return len) = _
      rw [hanalysis]
      rfl
  | _ => rfl

/-- A token that is acted upon with enough fuel does the same with any that is enough. -/
theorem act_refuel {a : Arrival} {n x y : Nat}
    (h : (a.token.act cfg a.locals a.behind len g).value = .ok x)
    (hn : (a.token.act cfg (a.locals.refuel n) a.behind len g).value = .ok y) :
    a.token.act cfg (a.locals.refuel n) a.behind len g
      = a.token.act cfg a.locals a.behind len g := by
  cases hcommand : a.command? with
  | none => rw [act_refuel_none hcommand]
  | some found =>
      obtain ⟨command, data⟩ := found
      have hcommandRefuel : (a.refuel n).command? = some (command, data) :=
        (command?_refuel a n).trans hcommand
      have hrun := act_command_ok hcommand h
      have hrunRefuel := act_command_ok (a := a.refuel n) hcommandRefuel hn
      have hsame : command.run cfg (a.locals.refuel n) data g = command.run cfg a.locals data g :=
        run_refuel (u := a.locals) (m := a.locals.fuel) hrunRefuel hrun
      have houtcome : command.run cfg a.locals data g
          = ⟨.ok (), (command.run cfg a.locals data g).state,
            (command.run cfg a.locals data g).events⟩ := by rw [← hrun]
      calc a.token.act cfg (a.locals.refuel n) a.behind len g
          = ⟨.ok 0, (command.run cfg a.locals data g).state,
              flushEvents len ++ [GdbEvent.send [chr '+']] ++
                (command.run cfg a.locals data g).events⟩ :=
            act_command_eq (a := a.refuel n) len hcommandRefuel (hsame.trans houtcome)
        _ = a.token.act cfg a.locals a.behind len g := (act_command_eq len hcommand houtcome).symm

/-- The same for a list of tokens. -/
theorem actAll_refuel {as bs : List Arrival} {x y : Nat} (h : SameTokens as bs)
    (has : (actAll cfg as len g).value = .ok x) (hbs : (actAll cfg bs len g).value = .ok y) :
    actAll cfg bs len g = actAll cfg as len g := by
  induction h generalizing len g with
  | nil => rfl
  | @cons a b as bs hab _ ih =>
      obtain ⟨n, rfl⟩ := hab
      have hcons (b : Arrival) (bs : List Arrival) : actAll cfg (b :: bs) len
          = b.token.act cfg b.locals b.behind len >>= actAll cfg bs := rfl
      rw [hcons] at has hbs ⊢
      rw [hcons]
      obtain ⟨m, hfirst, -⟩ := bind_ok has
      obtain ⟨m', hfirst', -⟩ := bind_ok hbs
      have hact : (a.refuel n).token.act cfg (a.refuel n).locals (a.refuel n).behind len g
          = a.token.act cfg a.locals a.behind len g := act_refuel hfirst hfirst'
      rw [bind_of_ok hfirst] at has ⊢
      rw [bind_of_ok hfirst', hact] at hbs
      rw [hact] at hfirst'
      have hm : m' = m := Except.ok.inj (hfirst'.symm.trans hfirst)
      subst hm
      rw [bind_of_ok (by rw [hact]; exact hfirst), hact, ih has hbs]

end

/-! ## Exceptions that are ignored -/

section

variable {cfg : GdbConfig} {items : List Item} {len : Nat} {g : Gdb}

/-- Without a RESET, the exceptions may as well be left out. -/
theorem performAll_tokens (cfg : GdbConfig) (len : Nat) (g : Gdb)
    (hirq : ∀ irq ∈ items.filterMap Item.exception?, (irq.toNat : Int) ≠ RESET) :
    let o := performAll cfg items len g
    let o' := actAll cfg (items.filterMap Item.token?) len g
    o.value = o'.value ∧ o.state = o'.state ∧ sends o.events = sends o'.events := by
  induction items generalizing len g with
  | nil => exact ⟨rfl, rfl, rfl⟩
  | cons i items ih =>
      cases i with
      | token a =>
          have ih := fun (n : Nat) (g : Gdb) => ih n g hirq
          show let o := (a.token.act cfg a.locals a.behind len >>= performAll cfg items) g
            let o' := (a.token.act cfg a.locals a.behind len >>=
              actAll cfg (items.filterMap Item.token?)) g
            o.value = o'.value ∧ o.state = o'.state ∧ sends o.events = sends o'.events
          cases hact : (a.token.act cfg a.locals a.behind len g).value with
          | error fault =>
              rw [bind_of_error hact, bind_of_error hact]
              exact ⟨rfl, rfl, rfl⟩
          | ok n =>
              rw [bind_of_ok hact, bind_of_ok hact]
              obtain ⟨hvalue, hstate, hsends⟩ :=
                ih n (a.token.act cfg a.locals a.behind len g).state
              refine ⟨hvalue, hstate, ?_⟩
              rw [sends_append, sends_append, hsends]
      | exception irq =>
          obtain ⟨hfirst, hrest⟩ := List.forall_mem_cons.mp hirq
          have hperform : (Item.exception irq).perform cfg len g
              = ⟨.ok len, g, [.arm (.exception irq)]⟩ := by
            rw [Item.perform, armException_ignore hfirst]
            rfl
          have hok : ((Item.exception irq).perform cfg len g).value = .ok len := by rw [hperform]
          obtain ⟨hvalue, hstate, hsends⟩ := ih len g hrest
          show let o := ((Item.exception irq).perform cfg len >>= performAll cfg items) g
            o.value = _ ∧ o.state = _ ∧ sends o.events = _
          rw [bind_of_ok hok, hperform]
          exact ⟨hvalue, hstate, hsends⟩

end

/-! ## Sections under way -/

section

variable {cfg : GdbConfig} {g : Gdb} {input : List Arrival}
  {connections : List (List (BitVec 8))} {c : Simulator}

theorem reaches_ownerInside
    (hruns : Reaches (listeners cfg) (Simulator.start g input connections) c) :
    OwnerInside Listener.Inside c :=
  hruns.ownerInside (listeners_guarded cfg) (ownerInside_start g input connections)

/-- The section of the gdb listener that is under way in `c`, for the command it waited with in
`c₀`. There it took the lock, and it has held it since. The irq listener has read from its
connection at most. -/
structure UnderWay (cfg : GdbConfig) (start c₀ c : Simulator) (command : Command)
    (data : List Byte) (u : GdbLocals) : Prop where
  reached : Reaches (listeners cfg) start c₀
  free : c₀.owner = none
  waiting : (gdbOf c₀.toQuiescent).point = .waiting command data u
  held : ∃ t, GdbLock (gdbOf c₀.toQuiescent) t ∧
    Held (listeners cfg) .gdb ⟨c₀.set .gdb t, some .gdb⟩ c
  irq : Relation.ReflTransGen IrqOwn (irqOf c₀.toQuiescent) (irqOf c.toQuiescent)

/-- Inside its section, the gdb listener holds the lock and has begun with its command. -/
theorem reaches_section
    (hruns : Reaches (listeners cfg) (Simulator.start g input connections) c)
    (hinside : (gdbOf c.toQuiescent).point.inside = true) :
    c.owner = some .gdb ∧ ∃ c₀ command data u es,
      UnderWay cfg (Simulator.start g input connections) c₀ c command data u ∧
      Reached cfg command data u ((gdbOf c₀.toQuiescent).stub.on c₀.state.core)
        ((gdbOf c.toQuiescent).stub.on c.state.core) es (gdbOf c.toQuiescent).point := by
  have howner : c.owner = some .gdb := (reaches_ownerInside hruns .gdb).mp hinside
  obtain ⟨c₀, t, hreached, hfree, hlock, hheld⟩ := hruns.lastLock rfl howner
  have hlock : GdbLock (gdbOf c₀.toQuiescent) t := hlock
  have hset : (c₀.set .gdb t).threads .gdb = t := c₀.set_threads_self .gdb t
  have hbody : Body (listeners cfg) .gdb ((c₀.set .gdb t).threads .gdb, c₀.state) _ := hheld.body
  rw [hset] at hbody
  have hirq : Relation.ReflTransGen IrqOwn ((c₀.set .gdb t).threads .irq) _ :=
    hheld.others (j := Listener.irq) (by decide)
  rw [c₀.set_threads_of_ne (i := Listener.gdb) (by decide) t] at hirq
  refine ⟨howner, c₀, ?_⟩
  have hsince : ∃ t, GdbLock (gdbOf c₀.toQuiescent) t ∧
      Held (listeners cfg) .gdb ⟨c₀.set .gdb t, some .gdb⟩ c := ⟨t, hlock, hheld⟩
  generalize hl : gdbOf c₀.toQuiescent = l at hlock
  cases hlock with
  | @lock command data u s len input sent =>
      obtain ⟨es, hes⟩ := gdbBody_progress hbody
      have hwaiting : (gdbOf c₀.toQuiescent).point = .waiting command data u := by rw [hl]
      exact ⟨command, data, u, es, ⟨hreached, hfree, hwaiting, hsince, hirq⟩, hes.point⟩

/-- When the gdb listener is at its end, what led there is explained, and an exception may be
under way. -/
theorem reaches_ended
    (hruns : Reaches (listeners cfg) (Simulator.start g input connections) c)
    (hended : (gdbOf c.toQuiescent).point = .ended) :
    ∃ items q, Explained cfg g input connections items q ∧
      gdbOf q = gdbOf c.toQuiescent ∧
      (c.owner = none ∧ c.state = q.state ∨ c.owner = some .irq ∧
        ∃ irq, (irqOf q).point = .waiting irq ∧
          Raised irq q.state c.state (irqOf c.toQuiescent).point) := by
  cases howner : c.owner with
  | none =>
      obtain ⟨items, hexplained⟩ := reaches_explained hruns howner
      exact ⟨items, c.toQuiescent, hexplained, rfl, .inl ⟨rfl, rfl⟩⟩
  | some i =>
      cases i with
      | gdb =>
          have hinside := (reaches_ownerInside hruns .gdb).mpr howner
          have hinside : (gdbOf c.toQuiescent).point.inside = true := hinside
          rw [hended] at hinside
          cases hinside
      | irq =>
          obtain ⟨q, ⟨items, hexplained⟩, ⟨t, hlock, hbody⟩, hothers⟩ :=
            hruns.pending (P := fun q => ∃ items, Explained cfg g input connections items q)
              (fun _ _ h hserial => explained_serial h hserial) rfl howner
              ⟨[], explained_start cfg g input connections⟩
          have hlock : IrqLock (irqOf q) t := hlock
          refine ⟨items, q, hexplained, (hothers .gdb (by decide)).symm, .inr ⟨rfl, ?_⟩⟩
          generalize irqOf q = l at hlock
          cases hlock with
          | @lock irq rest => exact ⟨irq, rfl, (irqBody_raised hbody).2⟩

end

/-! ## Without RESET -/

section

variable {cfg : GdbConfig} {g : Gdb} {input : List Arrival}
  {connections : List (List (BitVec 8))} {items : List Item}
  {q : Quiescent Listener Shared Listener.State} {c : Simulator} {n : Nat}

/-- The tokens that were acted upon are the first ones of the input. -/
theorem GdbBetween.tokens_prefix {l : GdbListener} {len : Nat} {sent : List (List Byte)}
    (h : GdbBetween input items len sent l) :
    ∃ done, done <+: input ∧ SameTokens done (items.filterMap Item.token?) := by
  cases h with
  | scanning htokens hinput => exact ⟨_, ⟨_, hinput.symm⟩, htokens⟩
  | waiting htokens hinput => exact ⟨_, ⟨_, hinput.symm⟩, htokens⟩
  | ended htokens => exact ⟨input, List.prefix_rfl, htokens⟩

/-- The exceptions that were raised are the first ones that came in. -/
theorem IrqBetween.raised_prefix {l : IrqListener} (h : IrqBetween connections items l) :
    items.filterMap Item.exception? <+: connections.flatten := by
  cases h with
  | reading hbytes => exact ⟨_, hbytes⟩
  | waiting hbytes => exact ⟨_, hbytes⟩

/-- The exception that is waited with comes next. -/
theorem IrqBetween.raised_next {l : IrqListener} {irq : BitVec 8}
    (h : IrqBetween connections items l) (hpoint : l.point = .waiting irq) :
    items.filterMap Item.exception? ++ [irq] <+: connections.flatten := by
  cases h with
  | reading => cases hpoint
  | @waiting irq rest hbytes =>
      cases hpoint
      exact ⟨rest.flatten, by rw [← hbytes, List.append_assoc, List.singleton_append]⟩

/-- What is explained without a RESET is explained by the tokens alone. -/
theorem Explained.tokens (h : Explained cfg g input connections items q)
    (hirq : ∀ irq ∈ connections.flatten, (irq.toNat : Int) ≠ RESET) :
    ∃ len, let o := actAll cfg (items.filterMap Item.token?) 0 g
      o.value = .ok len ∧ o.state = (gdbOf q).stub.on q.state.core ∧
        GdbBetween input items len (sends o.events) (gdbOf q) := by
  obtain ⟨⟨len, es, hrun, -, hbetween⟩, hraised⟩ := h
  obtain ⟨hvalue, hstate, hsends⟩ := performAll_tokens cfg 0 g
    fun irq hmem => hirq irq (hraised.raised_prefix.subset hmem)
  rw [hrun] at hvalue hstate hsends
  exact ⟨len, hvalue.symm, hstate.symm, hsends ▸ hbetween⟩

/-- A handler that is given up is one of the input's, so an input that can be acted upon to its end
has none. -/
theorem reaches_not_aborted (hirq : ∀ irq ∈ connections.flatten, (irq.toNat : Int) ≠ RESET)
    (hok : (actAll cfg input 0 g).value = .ok n)
    (hruns : Reaches (listeners cfg) (Simulator.start g input connections) c) (fault : Fault) :
    (gdbOf c.toQuiescent).point ≠ .aborted fault := by
  intro haborted
  have hinside : (gdbOf c.toQuiescent).point.inside = true := by
    rw [haborted]
    rfl
  obtain ⟨-, c₀, command, data, u, es, hunderWay, hreached⟩ := reaches_section hruns hinside
  rw [haborted] at hreached
  obtain ⟨-, herror⟩ := hreached
  obtain ⟨items, hexplained⟩ := reaches_explained hunderWay.reached hunderWay.free
  obtain ⟨len, hvalue, hstate, hbetween⟩ := hexplained.tokens hirq
  have hwaiting := hunderWay.waiting
  generalize gdbOf c₀.toQuiescent = l at hwaiting herror hstate hbetween
  cases hbetween with
  | @waiting s done rest a command' data' htokens hsplit hcommand =>
      cases hwaiting
      rw [hsplit, actAll_append] at hok
      -- the tokens in front of it lead to the state in which it waits
      obtain ⟨m, hdone, hbind⟩ := bind_ok hok
      have hsame := actAll_refuel htokens hdone hvalue
      rw [hbind, ← hsame, hstate] at hok
      obtain ⟨m', hact, -⟩ := bind_ok (f := actAll cfg rest) hok
      have hcommandRun := act_command_ok hcommand hact
      rw [herror] at hcommandRun
      cases hcommandRun
  | _ => cases hwaiting

/-- At its end, the gdb listener is where the input alone leads, and so is the processor. -/
theorem reaches_ended_tokens (hirq : ∀ irq ∈ connections.flatten, (irq.toNat : Int) ≠ RESET)
    (hok : (actAll cfg input 0 g).value = .ok n)
    (hruns : Reaches (listeners cfg) (Simulator.start g input connections) c)
    (hended : (gdbOf c.toQuiescent).point = .ended) :
    let o := actAll cfg input 0 g
    (gdbOf c.toQuiescent).stub.on c.state.core = o.state ∧
      (gdbOf c.toQuiescent).sent = sends o.events ++ sends (flushEvents n) := by
  obtain ⟨items, q, hexplained, hgdb, howner⟩ := reaches_ended hruns hended
  -- an exception that is under way is not RESET, so it leaves the processor
  have hcore : c.state.core = q.state.core := by
    rcases howner with ⟨-, hstate⟩ | ⟨-, irq, hwaiting, hraised⟩
    · rw [hstate]
    · have hnext := hexplained.irq.raised_next hwaiting
      exact hraised.core (hirq irq (hnext.subset (by simp)))
  obtain ⟨len, hvalue, hstate, hbetween⟩ := hexplained.tokens hirq
  rw [hgdb] at hstate hbetween
  rw [hcore]
  generalize gdbOf c.toQuiescent = l at hended hstate hbetween
  cases hbetween with
  | @ended s htokens =>
      have hsame := actAll_refuel htokens hok hvalue
      rw [hsame] at hvalue hstate ⊢
      obtain rfl : n = len := Except.ok.inj (hok.symm.trans hvalue)
      exact ⟨hstate.symm, rfl⟩
  | _ => cases hended

end

/-! ## Runs -/

section

variable {cfg : GdbConfig} {c₀ c : Simulator} {s : Stub} {len n : Nat} {a : Arrival}
  {as : List Arrival} {sent : List (List Byte)}

/-- With the lock free, the gdb listener can act upon its next token. -/
theorem reaches_act (hruns : Reaches (listeners cfg) c₀ c) (hfree : c.owner = none)
    (hl : gdbOf c.toQuiescent = ⟨.scanning, s, len, a :: as, sent⟩)
    (hcont : a.command?.map Prod.fst ≠ some .cont)
    (hok : (a.token.act cfg a.locals a.behind len (s.on c.state.core)).value = .ok n) :
    ∃ c' s' sent', Reaches (listeners cfg) c₀ c' ∧ c'.owner = none ∧
      gdbOf c'.toQuiescent = ⟨.scanning, s', n, as, sent'⟩ ∧
      irqOf c'.toQuiescent = irqOf c.toQuiescent ∧
      s'.on c'.state.core = (a.token.act cfg a.locals a.behind len (s.on c.state.core)).state := by
  cases hcommand : a.command? with
  | none =>
      obtain ⟨len', s', es, hact, -⟩ := act_independent cfg hcommand len s
      have hn : len' = n := by
        rw [hact c.state.core] at hok
        exact Except.ok.inj hok
      subst hn
      have hown : GdbOwn cfg (gdbOf c.toQuiescent) ⟨.scanning, s', len', as, sent ++ sends es⟩ := by
        rw [hl]
        exact .token hcommand hact
      refine ⟨_, s', _, hruns.tail (.own Listener.gdb hown), hfree, rfl, rfl, ?_⟩
      rw [hact c.state.core]
      rfl
  | some found =>
      obtain ⟨command, data⟩ := found
      have hreturns := act_command_ok hcommand hok
      have hrun : command.run cfg a.locals data (s.on c.state.core)
          = ⟨.ok (), (command.run cfg a.locals data (s.on c.state.core)).state,
            (command.run cfg a.locals data (s.on c.state.core)).events⟩ := by
        rw [← hreturns]
      have hact := act_command_eq len hcommand hrun
      have hn : n = 0 := by
        rw [hact] at hok
        exact (Except.ok.inj hok).symm
      subst hn
      have hne : command ≠ .cont := by
        rw [hcommand] at hcont
        exact fun heq => hcont (congrArg some heq)
      have hown : GdbOwn cfg (gdbOf c.toQuiescent) ⟨.waiting command data a.locals, s, 0, as,
          sent ++ sends (flushEvents len ++ [.send [chr '+']])⟩ := by
        rw [hl]
        exact .request hcommand (independent_acknowledge len s)
      have hwaiting := hruns.tail (.own Listener.gdb hown)
      have hhandling := hwaiting.tail (.lock Listener.gdb hfree .lock)
      have hreturning := hhandling.tail (.shared Listener.gdb rfl (handled hne hreturns))
      have hend := hreturning.tail (.unlock Listener.gdb rfl .unlock)
      refine ⟨_, _, _, hend, rfl, rfl, rfl, ?_⟩
      rw [hact]
      exact Gdb.stub_on _

/-- The gdb listener alone acts upon all of its tokens, if none of them asks for `cont`. -/
theorem reaches_actAll (hruns : Reaches (listeners cfg) c₀ c) (hfree : c.owner = none)
    (hl : gdbOf c.toQuiescent = ⟨.scanning, s, len, as, sent⟩)
    (hcont : ∀ a ∈ as, a.command?.map Prod.fst ≠ some .cont)
    (hok : (actAll cfg as len (s.on c.state.core)).value = .ok n) :
    ∃ c', Reaches (listeners cfg) c₀ c' ∧ (gdbOf c'.toQuiescent).point = .ended ∧
      irqOf c'.toQuiescent = irqOf c.toQuiescent := by
  induction as generalizing c s len sent with
  | nil =>
      have hown : GdbOwn cfg (gdbOf c.toQuiescent)
          ⟨.ended, s, 0, [], sent ++ sends (flushEvents len)⟩ := by
        rw [hl]
        exact .eof (independent_handleError len s)
      exact ⟨_, hruns.tail (.own Listener.gdb hown), rfl, rfl⟩
  | cons a as ih =>
      obtain ⟨ha, has⟩ := List.forall_mem_cons.mp hcont
      obtain ⟨m, hact, -⟩ := bind_ok (m := a.token.act cfg a.locals a.behind len)
        (f := actAll cfg as) hok
      have hcons : actAll cfg (a :: as) len = a.token.act cfg a.locals a.behind len >>=
        actAll cfg as := rfl
      rw [hcons, bind_of_ok hact] at hok
      obtain ⟨c', s', sent', hruns', hfree', hl', hirq, hstate⟩ :=
        reaches_act hruns hfree hl ha hact
      rw [← hstate] at hok
      obtain ⟨c'', hruns'', hended, hirq'⟩ := ih hruns' hfree' hl' has hok
      exact ⟨c'', hruns'', hended, hirq'.trans hirq⟩

end

def reasonArrival : Arrival := ⟨.packet (frame [chr '?']), zeroLocals, []⟩

def contArrival : Arrival := ⟨.packet (frame [chr 'c']), zeroLocals, []⟩

/-- An interrupt is read while the packet waits for the lock, and raised after its reply. -/
theorem reasonRun : ∃ c : Simulator,
    Reaches (listeners littleEndian) (Simulator.start (idleGdb 64) [reasonArrival] [[6]]) c ∧
      c.owner = none := by
  have hcommand : reasonArrival.command? = some (.reason, [0, 0x33, 0x66, 0]) := rfl
  have hstart : Reaches (listeners littleEndian)
      (Simulator.start (idleGdb 64) [reasonArrival] [[6]]) _ := Relation.ReflTransGen.refl
  have hrequest := hstart.tail (.own Listener.gdb (.request hcommand (independent_acknowledge _ _)))
  have hread := hrequest.tail (.own Listener.irq .read)
  have hlock := hread.tail (.lock Listener.gdb rfl .lock)
  have hhandle := hlock.tail (.shared Listener.gdb rfl (.handle rfl (by decide)))
  have hunlock := hhandle.tail (.unlock Listener.gdb rfl .unlock)
  have hlock' := hunlock.tail (.lock Listener.irq rfl .lock)
  have hraise := hlock'.tail (.shared Listener.irq rfl (.ignore (by decide)))
  have hunlock' := hraise.tail (.unlock Listener.irq rfl .unlock)
  exact ⟨_, hunlock', rfl⟩

/-- The interrupt has the lock when `main` returns. -/
theorem lostRun : ∃ p : Process,
    ProcessReaches littleEndian (Process.start (idleGdb 64) [reasonArrival] [[6]]) p ∧
      p.main = .returned ∧ p.simulator.owner = some .irq := by
  have hcommand : reasonArrival.command? = some (.reason, [0, 0x33, 0x66, 0]) := rfl
  have hstart : ProcessReaches littleEndian
      (Process.start (idleGdb 64) [reasonArrival] [[6]]) _ := Relation.ReflTransGen.refl
  have hread := hstart.tail (.listener MainPoint.noConfusion nofun (.own Listener.irq .read))
  have hrequest := hread.tail (.listener MainPoint.noConfusion nofun
    (.own Listener.gdb (.request hcommand (independent_acknowledge _ _))))
  have hlock := hrequest.tail (.listener MainPoint.noConfusion nofun
    (.lock Listener.gdb rfl .lock))
  have hhandle := hlock.tail (.listener MainPoint.noConfusion nofun
    (.shared Listener.gdb rfl (.handle rfl (by decide))))
  have hunlock := hhandle.tail (.listener MainPoint.noConfusion nofun
    (.unlock Listener.gdb rfl .unlock))
  have hend := hunlock.tail (.listener MainPoint.noConfusion nofun
    (.own Listener.gdb (.eof (independent_handleError _ _))))
  have hlock' := hend.tail (.listener MainPoint.noConfusion nofun (.lock Listener.irq rfl .lock))
  have hjoin := hlock'.tail (.join rfl)
  exact ⟨_, hjoin.tail .destroy, rfl, rfl⟩

/-- RESET waits while `cont` executes its first instruction. -/
theorem contRun : ∃ c : Simulator,
    Reaches (listeners littleEndian) (Simulator.start (idleGdb 64) [contArrival] [[1]]) c ∧
      (gdbOf c.toQuiescent).point = .looking zeroLocals 1 0 := by
  have hcommand : contArrival.command? = some (.cont, [0, 0x36, 0x33, 0]) := rfl
  have hstart : Reaches (listeners littleEndian)
      (Simulator.start (idleGdb 64) [contArrival] [[1]]) _ := Relation.ReflTransGen.refl
  have hrequest := hstart.tail (.own Listener.gdb (.request hcommand (independent_acknowledge _ _)))
  have hread := hrequest.tail (.own Listener.irq .read)
  have hlock := hread.tail (.lock Listener.gdb rfl .lock)
  have henter := hlock.tail (.shared Listener.gdb rfl (.enter rfl))
  have hlook := henter.tail (.shared Listener.gdb rfl (.look rfl))
  have hstep := hlook.tail (.shared Listener.gdb rfl
    (@GdbShared.step _ _ _ zeroLocals 0 0 rfl))
  exact ⟨_, hstep, rfl⟩

/-! ## Any interleaving -/

section

variable (cfg : GdbConfig) (g : Gdb) (input : List Arrival)
  (connections : List (List (BitVec 8))) (c : Simulator)

/-- **Interleavings are sequential.** Whenever the lock is free, the processor, the trace and what
was sent are those of a list of whole tokens and whole exceptions, one after the other. Each
listener has come as far in its own input as the list has. -/
theorem interleaving_sequential
    (hruns : Reaches (listeners cfg) (Simulator.start g input connections) c)
    (hfree : c.owner = none) :
    ∃ items, Explained cfg g input connections items c.toQuiescent :=
  reaches_explained hruns hfree

theorem interleaving_sequential_reason : ∃ c : Simulator,
    Reaches (listeners littleEndian) (Simulator.start (idleGdb 64) [reasonArrival] [[6]]) c ∧
      ∃ items, Explained littleEndian (idleGdb 64) [reasonArrival] [[6]] items c.toQuiescent := by
  obtain ⟨c, hruns, hfree⟩ := reasonRun
  exact ⟨c, hruns, interleaving_sequential littleEndian (idleGdb 64) _ _ c hruns hfree⟩

/-- **Nothing gets into a `cont`.** While the loop of `cont` is under way, the gdb listener has held
the lock since the state `c₀` in which it took it: after `k` steps the processor is `k` calls of
`arm_step` from where it was there, and no exception has been raised in between. What the irq
listener may have done meanwhile is to read the byte it waits with. -/
theorem cont_undisturbed (u : GdbLocals) (k : Nat) (instruction : BitVec 32)
    (hruns : Reaches (listeners cfg) (Simulator.start g input connections) c)
    (hpoint : (gdbOf c.toQuiescent).point = .looking u k instruction ∨
      (gdbOf c.toQuiescent).point = .stepping u k instruction) :
    c.owner = some .gdb ∧ ∃ c₀ data,
      UnderWay cfg (Simulator.start g input connections) c₀ c .cont data u ∧
      c.state.core = c₀.state.core.after cfg.host u.steps k := by
  have hinside : (gdbOf c.toQuiescent).point.inside = true := by
    rcases hpoint with h | h
    · rw [h]
      rfl
    · rw [h]
      rfl
  obtain ⟨howner, c₀, command, data, u', es, hunderWay, hreached⟩ := reaches_section hruns hinside
  refine ⟨howner, c₀, data, ?_⟩
  rcases hpoint with h | h
  · rw [h] at hreached
    obtain ⟨rfl, rfl, hcore, -⟩ := hreached
    exact ⟨hunderWay, hcore⟩
  · rw [h] at hreached
    obtain ⟨rfl, rfl, hcore, -⟩ := hreached
    exact ⟨hunderWay, hcore⟩

theorem cont_undisturbed_reset : ∃ c : Simulator,
    Reaches (listeners littleEndian) (Simulator.start (idleGdb 64) [contArrival] [[1]]) c ∧
      c.owner = some .gdb ∧ ∃ c₀ data,
        UnderWay littleEndian (Simulator.start (idleGdb 64) [contArrival] [[1]]) c₀ c .cont data
          zeroLocals ∧
        c.state.core = c₀.state.core.after littleEndian.host zeroLocals.steps 1 := by
  obtain ⟨c, hruns, hpoint⟩ := contRun
  exact ⟨c, hruns,
    cont_undisturbed littleEndian (idleGdb 64) _ _ c zeroLocals 1 0 hruns (.inl hpoint)⟩

/-- **What is complete at the end of a run.** A process that cannot go on has returned, unless a
handler was given up. Once `main` has joined the gdb listener, every token has been acted upon, once
and in order, and all replies are sent. Of the exceptions the first ones have been raised, each
once and in order, and one more may be under way: those behind it are lost when `main` returns. -/
theorem interleaving_complete (p : Process)
    (hruns : ProcessReaches cfg (Process.start g input connections) p) :
    let l := gdbOf p.simulator.toQuiescent
    ((∀ p', ¬ ProcessStep cfg p p') →
        p.main = .returned ∨ ∃ fault, l.point = .aborted fault) ∧
      (p.main ≠ .joining → ∃ items len es shared,
        let raised := items.filterMap Item.exception?
        performAll cfg items 0 g = ⟨.ok len, l.stub.on shared.core, es⟩ ∧
          shared.trace = es.filter GdbEvent.isTrace ∧
          SameTokens input (items.filterMap Item.token?) ∧
          l.sent = sends es ++ sends (flushEvents len) ∧
          raised <+: connections.flatten ∧
          (p.simulator.owner = none ∧ p.simulator.state = shared ∨
            p.simulator.owner = some .irq ∧ ∃ irq, raised ++ [irq] <+: connections.flatten ∧
              Raised irq shared p.simulator.state (irqOf p.simulator.toQuiescent).point)) := by
  intro l
  have hsimulator := hruns.simulator
  refine ⟨process_stuck (reaches_ownerInside hsimulator), fun hmain => ?_⟩
  -- what the listeners do behind the join keeps the gdb listener at its end
  have hended := hruns.joined hmain
  obtain ⟨items, q, ⟨⟨len, es, hrun, htrace, hbetween⟩, hraised⟩, hgdb, howner⟩ :=
    reaches_ended hsimulator hended
  have hl : gdbOf q = l := hgdb
  rw [hl] at hrun hbetween
  refine ⟨items, len, es, q.state, hrun, htrace, ?_⟩
  have hfirst := hraised.raised_prefix
  have hstate : p.simulator.owner = none ∧ p.simulator.state = q.state ∨
      p.simulator.owner = some .irq ∧ ∃ irq,
        items.filterMap Item.exception? ++ [irq] <+: connections.flatten ∧
          Raised irq q.state p.simulator.state (irqOf p.simulator.toQuiescent).point := by
    rcases howner with hfree | ⟨hirq, irq, hwaiting, hunderWay⟩
    · exact .inl hfree
    · exact .inr ⟨hirq, irq, hraised.raised_next hwaiting, hunderWay⟩
  have hended : l.point = .ended := hended
  clear_value l
  cases hbetween with
  | ended htokens => exact ⟨htokens, rfl, hfirst, hstate⟩
  | _ => cases hended

theorem interleaving_complete_lost : ∃ p : Process,
    ProcessReaches littleEndian (Process.start (idleGdb 64) [reasonArrival] [[6]]) p ∧
      let l := gdbOf p.simulator.toQuiescent
      p.main = .returned ∧ p.simulator.owner = some .irq ∧ ∃ items len es shared,
        let raised := items.filterMap Item.exception?
        performAll littleEndian items 0 (idleGdb 64) = ⟨.ok len, l.stub.on shared.core, es⟩ ∧
          shared.trace = es.filter GdbEvent.isTrace ∧
          SameTokens [reasonArrival] (items.filterMap Item.token?) ∧
          l.sent = sends es ++ sends (flushEvents len) ∧
          raised <+: [6] ∧
          (p.simulator.owner = none ∧ p.simulator.state = shared ∨
            p.simulator.owner = some .irq ∧ ∃ irq, raised ++ [irq] <+: [6] ∧
              Raised irq shared p.simulator.state (irqOf p.simulator.toQuiescent).point) := by
  obtain ⟨p, hruns, hmain, howner⟩ := lostRun
  refine ⟨p, hruns, hmain, howner, ?_⟩
  exact (interleaving_complete littleEndian (idleGdb 64) _ _ p hruns).2
    (by rw [hmain]; exact MainPoint.noConfusion)

/-- **The irq listener does not disturb a session.** If none of its bytes is RESET, every run that
cannot go on has come to the end of the session, and every run that comes to its end has served
it, whatever the irq listener has read or raised by then: each request carried out once, in order,
and each reply sent as often as it was asked for. -/
theorem session_served_interleaved (xs : List Exchange) (rs : List Request) (t' : Target)
    (replies : List (List Byte)) (hxs : List.Forall₂ (Exchange.Carries cfg) xs rs)
    (hinput : input.map Arrival.token = scannerTokens (xs.flatMap Exchange.bytes))
    (hserved : Served cfg rs (acceptedLocals input) g.target replies t')
    (hirq : ∀ irq ∈ connections.flatten, (irq.toNat : Int) ≠ RESET)
    (hruns : Reaches (listeners cfg) (Simulator.start g input connections) c) :
    let l := gdbOf c.toQuiescent
    ((∀ c', ¬ Step (listeners cfg) c c') → l.point = .ended) ∧
      (l.point = .ended →
        c.state.core = t'.arm ∧ l.stub.targetException = t'.exception ∧
          l.sent = (List.zipWith Exchange.answer xs replies).flatten) := by
  intro l
  obtain ⟨g', es', hacts, -, htarget, hsends⟩ := yylex_session hxs hinput hserved
  have hok : (actAll cfg input 0 g).value = .ok 0 := hacts.value
  refine ⟨fun hstuck => ?_, fun hended => ?_⟩
  · rcases stuck_points (reaches_ownerInside hruns) hstuck with ⟨fault, haborted⟩ | ⟨-, hended, -⟩
    · exact absurd haborted (reaches_not_aborted hirq hok hruns fault)
    · exact hended
  · obtain ⟨hstate, hsent⟩ := reaches_ended_tokens hirq hok hruns hended
    have htarget : (l.stub.on c.state.core).target = t' := by
      rw [hstate, hacts.state]
      exact htarget
    refine ⟨congrArg Target.arm htarget, congrArg Target.exception htarget, ?_⟩
    rw [hsent, ← hsends, ← sends_of_runs hacts]
    exact List.append_nil _

/-- An interrupt waits for the lock up to the end. -/
theorem session_served_interleaved_setAndRead :
    let input : List Arrival :=
      (setAndRead.flatMap Exchange.tokens).map fun t => ⟨t, zeroLocals, []⟩
    ∃ c : Simulator,
      Reaches (listeners littleEndian) (Simulator.start (idleGdb 64) input [[6]]) c ∧
        irqOf c.toQuiescent = ⟨.waiting 6, [[]]⟩ ∧
        c.state.core = (idleGdb 64).arm.setReg 7 0x12345678 ∧
        (gdbOf c.toQuiescent).stub.targetException = 0 ∧
        (gdbOf c.toQuiescent).sent = (List.zipWith Exchange.answer setAndRead
          [text ['O', 'K'], wordText littleEndian 0x12345678]).flatten := by
  intro input
  have hinput : input.map Arrival.token = scannerTokens (setAndRead.flatMap Exchange.bytes) := by
    rw [scannerTokens_session setAndRead_carries, List.map_map]
    exact List.map_id _
  have hserved : Served littleEndian [.write 7 0x12345678, .read 7] (acceptedLocals input)
      (idleGdb 64).target [text ['O', 'K'], wordText littleEndian 0x12345678]
      ⟨(idleGdb 64).arm.setReg 7 0x12345678, 0⟩ :=
    .cons (.write _ (by decide) _) (.cons (.read _ (by decide)) (.nil _))
  obtain ⟨g', es, hacts, -⟩ := yylex_session setAndRead_carries hinput hserved
  have hstart : Reaches (listeners littleEndian) (Simulator.start (idleGdb 64) input [[6]]) _ :=
    Relation.ReflTransGen.refl
  have hread := hstart.tail (.own Listener.irq .read)
  obtain ⟨c, hruns, hended, hirq⟩ := reaches_actAll hread rfl
    (show gdbOf _ = (⟨.scanning, (idleGdb 64).stub, 0, input, []⟩ : GdbListener) from rfl)
    (by decide +kernel) hacts.value
  exact ⟨c, hruns, hirq, (session_served_interleaved littleEndian (idleGdb 64) input [[6]] c
    setAndRead _ _ _ setAndRead_carries hinput hserved (by decide) hruns).2 hended⟩

end

end Armator
