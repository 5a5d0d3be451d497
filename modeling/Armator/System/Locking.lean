import Armator.System.Sections

set_option autoImplicit false

/-! # Who holds the lock

A listener is inside its section or outside of it, as the place it is at tells, and only one of
them is inside (`listeners_guarded`). Both can always go on, unless they are at their end or a
handler has followed a pointer to nothing (`stuck_points`), and so can the process until `main`
returns (`process_stuck`).
-/

namespace Armator

open Logged CString Critical

/-! ## Inside and outside -/

/-- Between `pthread_mutex_lock` and `pthread_mutex_unlock`. -/
def GdbPoint.inside : GdbPoint → Bool
  | .scanning | .waiting _ _ _ | .ended => false
  | _ => true

def IrqPoint.inside : IrqPoint → Bool
  | .reading | .waiting _ => false
  | _ => true

def Listener.Inside : (i : Listener) → i.State → Prop
  | .gdb => fun l : GdbListener => l.point.inside = true
  | .irq => fun l : IrqListener => l.point.inside = true

section

variable {cfg : GdbConfig} {l : GdbListener}

/-- Where a program goes on is inside, and so is the place where it is given up. -/
theorem after_inside {α : Type} {shared : Shared} {o : Outcome Gdb GdbEvent (Except Fault α)}
    {next : α → GdbPoint} (hnext : ∀ a, (next a).inside = true) :
    (l.after shared o next).1.point.inside = true := by
  cases hvalue : o.value with
  | ok a =>
      rw [after_point hvalue]
      exact hnext a
  | error fault =>
      rw [GdbListener.after, hvalue]
      rfl

theorem gdbShared_inside {x y : GdbListener × Shared} (h : GdbShared cfg x y) :
    y.1.point.inside = true := by
  cases h with
  | handle => exact after_inside fun _ => rfl
  | enter => rfl
  | look =>
      refine after_inside fun w => ?_
      split
      · rfl
      · rfl
  | step => exact after_inside fun _ => rfl
  | report => exact after_inside fun _ => rfl

theorem listeners_guarded (cfg : GdbConfig) : Guarded (listeners cfg) Listener.Inside where
  own := by
    intro i t t' h
    cases i with
    | gdb => cases h <;> exact iff_of_false Bool.false_ne_true Bool.false_ne_true
    | irq => cases h <;> exact iff_of_false Bool.false_ne_true Bool.false_ne_true
  lock := by
    intro i t t' h
    cases i with
    | gdb =>
        cases h
        rfl
    | irq =>
        cases h
        rfl
  shared := by
    intro i t t' s s' h
    cases i with
    | gdb => exact gdbShared_inside h
    | irq => cases h <;> rfl
  unlock := by
    intro i t t' h
    cases i with
    | gdb =>
        cases h
        exact Bool.false_ne_true
    | irq =>
        cases h
        exact Bool.false_ne_true

theorem ownerInside_start (g : Gdb) (input : List Arrival) (connections : List (List (BitVec 8))) :
    OwnerInside Listener.Inside (Simulator.start g input connections) := by
  intro i
  refine iff_of_false ?_ (Option.some_ne_none i).symm
  cases i with
  | gdb => exact Bool.false_ne_true
  | irq => exact Bool.false_ne_true

end

/-! ## Going on -/

section

variable {cfg : GdbConfig} {l : GdbListener} {r : IrqListener}

/-- Outside, the gdb listener scans or waits, up to the end of the input. -/
theorem gdb_outside (cfg : GdbConfig) (h : l.point.inside = false) :
    (∃ l', GdbOwn cfg l l') ∨ (∃ l', GdbLock l l') ∨ l.point = .ended := by
  obtain ⟨point, s, len, input, sent⟩ := l
  cases point with
  | scanning =>
      left
      cases input with
      | nil => exact ⟨_, .eof (independent_handleError len s)⟩
      | cons a as =>
          cases hcommand : a.command? with
          | some found => exact ⟨_, .request hcommand (independent_acknowledge len s)⟩
          | none =>
              obtain ⟨len', s', es, hact, -⟩ := act_independent cfg hcommand len s
              exact ⟨_, .token hcommand hact⟩
  | waiting command data u => exact .inr (.inl ⟨_, .lock⟩)
  | ended => exact .inr (.inr rfl)
  | _ => cases h

/-- Inside, it goes on to the unlock unless its handler is given up. -/
theorem gdb_inside (cfg : GdbConfig) (shared : Shared) (h : l.point.inside = true) :
    (∃ y, GdbShared cfg (l, shared) y) ∨ (∃ l', GdbUnlock l l') ∨
      ∃ fault, l.point = .aborted fault := by
  cases hpoint : l.point with
  | handling command data u =>
      by_cases hcont : command = .cont
      · subst hcont
        exact .inl ⟨_, .enter hpoint⟩
      · exact .inl ⟨_, .handle hpoint hcont⟩
  | looking u k instruction => exact .inl ⟨_, .look hpoint⟩
  | stepping u k instruction => exact .inl ⟨_, .step hpoint⟩
  | reporting => exact .inl ⟨_, .report hpoint⟩
  | returning =>
      obtain ⟨point, s, len, input, sent⟩ := l
      cases hpoint
      exact .inr (.inl ⟨_, .unlock⟩)
  | aborted fault => exact .inr (.inr ⟨fault, rfl⟩)
  | _ =>
      rw [hpoint] at h
      cases h

theorem irq_outside (h : r.point.inside = false) :
    (∃ r', IrqOwn r r') ∨ (∃ r', IrqLock r r') ∨ r = ⟨.reading, []⟩ := by
  obtain ⟨point, connections⟩ := r
  cases point with
  | reading =>
      rcases connections with _ | ⟨_ | ⟨irq, irqs⟩, connections⟩
      · exact .inr (.inr rfl)
      · exact .inl ⟨_, .accept⟩
      · exact .inl ⟨_, .read⟩
  | waiting irq => exact .inr (.inl ⟨_, .lock⟩)
  | _ => cases h

theorem irq_inside (shared : Shared) (h : r.point.inside = true) :
    (∃ y, IrqShared (r, shared) y) ∨ ∃ r', IrqUnlock r r' := by
  obtain ⟨point, connections⟩ := r
  cases point with
  | raising irq =>
      by_cases hirq : (irq.toNat : Int) = RESET
      · exact .inl ⟨_, .reset hirq⟩
      · exact .inl ⟨_, .ignore hirq⟩
  | resetting => exact .inl ⟨_, .pc⟩
  | returning => exact .inr ⟨_, .unlock⟩
  | _ => cases h

/-- **No deadlock.** A run that cannot go on is at its end, or a handler was given up. -/
theorem stuck_points {c : Simulator} (howner : OwnerInside Listener.Inside c)
    (hstuck : ∀ c', ¬ Step (listeners cfg) c c') :
    (∃ fault, (gdbOf c.toQuiescent).point = .aborted fault) ∨
      (c.owner = none ∧ (gdbOf c.toQuiescent).point = .ended ∧
        irqOf c.toQuiescent = ⟨.reading, []⟩) := by
  have hgdb : (gdbOf c.toQuiescent).point.inside = true ↔ c.owner = some .gdb := howner .gdb
  have hirq : (irqOf c.toQuiescent).point.inside = true ↔ c.owner = some .irq := howner .irq
  cases hown : c.owner with
  | none =>
      have hgdb' : (gdbOf c.toQuiescent).point.inside = false :=
        Bool.eq_false_iff.mpr fun h => Option.some_ne_none _ ((hgdb.mp h).symm.trans hown)
      have hirq' : (irqOf c.toQuiescent).point.inside = false :=
        Bool.eq_false_iff.mpr fun h => Option.some_ne_none _ ((hirq.mp h).symm.trans hown)
      right
      refine ⟨rfl, ?_, ?_⟩
      · rcases gdb_outside cfg hgdb' with ⟨l', hl⟩ | ⟨l', hl⟩ | hended
        · exact (hstuck _ (.own Listener.gdb hl)).elim
        · exact (hstuck _ (.lock Listener.gdb hown hl)).elim
        · exact hended
      · rcases irq_outside hirq' with ⟨r', hr⟩ | ⟨r', hr⟩ | hended
        · exact (hstuck _ (.own Listener.irq hr)).elim
        · exact (hstuck _ (.lock Listener.irq hown hr)).elim
        · exact hended
  | some i =>
      left
      cases i with
      | gdb =>
          rcases gdb_inside cfg c.state (hgdb.mpr hown) with ⟨⟨t, s⟩, hl⟩ | ⟨l', hl⟩ | haborted
          · exact (hstuck _ (.shared Listener.gdb hown hl)).elim
          · exact (hstuck _ (.unlock Listener.gdb hown hl)).elim
          · exact haborted
      | irq =>
          rcases irq_inside c.state (hirq.mpr hown) with ⟨⟨t, s⟩, hr⟩ | ⟨r', hr⟩
          · exact (hstuck _ (.shared Listener.irq hown hr)).elim
          · exact (hstuck _ (.unlock Listener.irq hown hr)).elim

end

/-! ## The process -/

section

variable {cfg : GdbConfig} {g : Gdb} {input : List Arrival}
  {connections : List (List (BitVec 8))} {c c' : Simulator} {p p' : Process}

/-- At its end, the gdb listener stays where it is. -/
theorem gdbOf_of_ended (h : Step (listeners cfg) c c')
    (hended : (gdbOf c.toQuiescent).point = .ended) :
    gdbOf c'.toQuiescent = gdbOf c.toQuiescent := by
  have hirq (t : IrqListener) : gdbOf (c.toQuiescent.set Listener.irq t) = gdbOf c.toQuiescent :=
    c.toQuiescent.set_threads_of_ne (i := Listener.irq) (by decide) t
  cases h with
  | @own i t hown =>
      cases i with
      | gdb =>
          have hscanning : (gdbOf c.toQuiescent).point = .scanning := gdbOwn_scanning hown
          rw [hended] at hscanning
          cases hscanning
      | irq => exact hirq t
  | @lock i t _ hlock =>
      cases i with
      | gdb =>
          have hlock : GdbLock (gdbOf c.toQuiescent) t := hlock
          generalize gdbOf c.toQuiescent = l at hended hlock
          cases hlock
          cases hended
      | irq => exact hirq t
  | @shared i t s _ hshared =>
      cases i with
      | gdb =>
          have hshared : GdbShared cfg (gdbOf c.toQuiescent, c.state) (t, s) := hshared
          generalize gdbOf c.toQuiescent = l at hended hshared
          generalize hy : (t, s) = y at hshared
          cases hshared with
          | handle hpoint | enter hpoint | look hpoint | step hpoint | report hpoint =>
              rw [hended] at hpoint
              cases hpoint
      | irq => exact hirq t
  | @unlock i t _ hunlock =>
      cases i with
      | gdb =>
          have hunlock : GdbUnlock (gdbOf c.toQuiescent) t := hunlock
          generalize gdbOf c.toQuiescent = l at hended hunlock
          cases hunlock
          cases hended
      | irq => exact hirq t

/-- What the process does, its listeners do. -/
theorem ProcessReaches.simulator (h : ProcessReaches cfg p p') :
    Reaches (listeners cfg) p.simulator p'.simulator := by
  induction h with
  | refl => exact .refl
  | tail _ hstep ih =>
      cases hstep with
      | listener _ _ hstep => exact ih.tail hstep
      | join => exact ih
      | destroy => exact ih

/-- `main` goes on when the gdb listener is at its end. -/
theorem ProcessReaches.joined (h : ProcessReaches cfg (Process.start g input connections) p)
    (hmain : p.main ≠ .joining) : (gdbOf p.simulator.toQuiescent).point = .ended := by
  induction h with
  | refl => exact absurd rfl hmain
  | tail _ hstep ih =>
      cases hstep with
      | listener _ _ hstep =>
          have hended := ih hmain
          rw [gdbOf_of_ended hstep hended]
          exact hended
      | join hended => exact hended
      | destroy => exact ih MainPoint.noConfusion

/-- **`main` does not wait for ever.** A process that cannot go on has returned, or a handler was
given up. -/
theorem process_stuck (howner : OwnerInside Listener.Inside p.simulator)
    (hstuck : ∀ p', ¬ ProcessStep cfg p p') :
    p.main = .returned ∨ ∃ fault, (gdbOf p.simulator.toQuiescent).point = .aborted fault := by
  obtain ⟨c, main⟩ := p
  cases main with
  | returned => exact .inl rfl
  | joined => exact (hstuck _ .destroy).elim
  | joining =>
      right
      by_contra halive
      have halive := not_exists.mp halive
      have hrest : ∀ c', ¬ Step (listeners cfg) c c' :=
        fun c' hstep => hstuck _ (.listener MainPoint.noConfusion halive hstep)
      rcases stuck_points howner hrest with ⟨fault, haborted⟩ | ⟨-, hended, -⟩
      · exact halive fault haborted
      · exact hstuck _ (.join hended)

end

end Armator
