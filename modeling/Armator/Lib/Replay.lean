import Armator.Lib.Logged

set_option autoImplicit false

/-! # Programs whose events can be replayed

A `Reading` says what an event does to a record of the state, and what it asserts about the
record. A program is `Faithful` when replaying its events on the record of the state before
gives the record of the state after, and every event agrees with what the events before it make
of the record. Faithful programs compose (`Faithful.bind`).
-/

namespace Logged

variable {σ ρ ε α β : Type}

/-- What an event does to a record, and when it agrees with the record. -/
structure Reading (ρ ε : Type) where
  apply : ρ → ε → ρ
  agrees : ρ → ε → Prop

namespace Reading

variable (R : Reading ρ ε)

def replay (es : List ε) (t : ρ) : ρ := es.foldl R.apply t

/-- Every event agrees with the replay of the events before it. -/
def Consistent : List ε → ρ → Prop
  | [], _ => True
  | e :: es, t => R.agrees t e ∧ Consistent es (R.apply t e)

variable {R} {es es' : List ε} {t : ρ}

@[simp] theorem replay_nil (R : Reading ρ ε) (t : ρ) : R.replay [] t = t := rfl

@[simp] theorem replay_cons (R : Reading ρ ε) (e : ε) (es : List ε) (t : ρ) :
    R.replay (e :: es) t = R.replay es (R.apply t e) := rfl

theorem replay_append (R : Reading ρ ε) (es es' : List ε) (t : ρ) :
    R.replay (es ++ es') t = R.replay es' (R.replay es t) := List.foldl_append

theorem consistent_append :
    R.Consistent (es ++ es') t ↔ R.Consistent es t ∧ R.Consistent es' (R.replay es t) := by
  induction es generalizing t with
  | nil => simp [Consistent]
  | cons e es ih =>
      rw [List.cons_append, Consistent, ih, Consistent, replay_cons, and_assoc]

/-- Consistency, at each place of a log. -/
theorem Consistent.agrees {before after : List ε} {e : ε}
    (h : R.Consistent (before ++ e :: after) t) : R.agrees (R.replay before t) e :=
  (consistent_append.mp h).2.1

end Reading

/-- From `s`, the events of `m` agree with the record and tell what becomes of it. -/
structure Replays (R : Reading ρ ε) (view : σ → ρ) (m : LogM σ ε α) (s : σ) : Prop where
  consistent : R.Consistent (m s).events (view s)
  replay : R.replay (m s).events (view s) = view (m s).state

/-- The events of `m` tell all that `m` does to the record. -/
def Faithful (R : Reading ρ ε) (view : σ → ρ) (m : LogM σ ε α) : Prop := ∀ s, Replays R view m s

variable {R : Reading ρ ε} {view : σ → ρ} {m : LogM σ ε α} {s : σ} {e : ε}

namespace Replays

theorem bind {f : α → LogM σ ε β} (h : Replays R view m s)
    (hf : Replays R view (f (m s).value) (m s).state) : Replays R view (m >>= f) s := by
  have hevents : ((m >>= f) s).events = (m s).events ++ (f (m s).value (m s).state).events := rfl
  constructor
  · rw [hevents, Reading.consistent_append, h.replay]
    exact ⟨h.consistent, hf.consistent⟩
  · rw [hevents, Reading.replay_append, h.replay, hf.replay]
    rfl

/-- A program with one event. -/
theorem ofEvent (hevents : (m s).events = [e]) (hagrees : R.agrees (view s) e)
    (happly : R.apply (view s) e = view (m s).state) : Replays R view m s := by
  constructor
  · rw [hevents]
    exact ⟨hagrees, trivial⟩
  · rw [hevents, Reading.replay_cons, Reading.replay_nil, happly]

/-- An event that tells of no change. -/
theorem emit (hagrees : R.agrees (view s) e) (happly : R.apply (view s) e = view s) :
    Replays R view (emit e : LogM σ ε Unit) s := ofEvent rfl hagrees happly

end Replays

namespace Faithful

theorem pure (a : α) : Faithful R view (Pure.pure a : LogM σ ε α) := fun _ => ⟨trivial, rfl⟩

theorem getState : Faithful R view (getState : LogM σ ε σ) := fun _ => ⟨trivial, rfl⟩

/-- A change that the record does not show. -/
theorem modifyState {f : σ → σ} (h : ∀ s, view (f s) = view s) :
    Faithful R view (modifyState f : LogM σ ε Unit) := fun s => ⟨trivial, (h s).symm⟩

theorem bind {f : α → LogM σ ε β} (hm : Faithful R view m) (hf : ∀ a, Faithful R view (f a)) :
    Faithful R view (m >>= f) := fun s => (hm s).bind (hf _ _)

end Faithful

theorem sequential_faithful (R : Reading ρ ε) (view : σ → ρ) :
    Sequential fun {_} (m : LogM σ ε _) => Faithful R view m :=
  ⟨Faithful.pure, Faithful.bind⟩

end Logged
