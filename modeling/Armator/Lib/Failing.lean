import Armator.Lib.Logged

set_option autoImplicit false

/-! # Logged programs that can fail

`FailM φ σ ε α` is a logged program that returns an `α` or stops with a fault of type `φ`; the
state and the events up to the fault are kept. `zoom` runs a program over a part of the state.
-/

namespace Logged

abbrev FailM (φ σ ε α : Type) : Type := ExceptT φ (LogM σ ε) α

/-- `m` on the part of the state that `get` reads and `set` puts back; `wrap` renames its
events. -/
def zoom {σ τ δ ε α : Type} (get : σ → τ) (set : τ → σ → σ) (wrap : ε → δ) (m : LogM τ ε α) :
    LogM σ δ α := fun s =>
  let r := m (get s)
  ⟨r.value, set r.state s, r.events.map wrap⟩

/-- A logged program cannot fail. -/
def total {φ σ ε α : Type} (m : LogM σ ε α) : FailM φ σ ε α := ExceptT.lift m

theorem total_eq {φ σ ε α : Type} (m : LogM σ ε α) (s : σ) :
    (total m : FailM φ σ ε α) s = ⟨.ok (m s).value, (m s).state, (m s).events⟩ :=
  congrArg (Outcome.mk _ _) (List.append_nil _)

namespace Runs

variable {φ σ τ δ ε α β : Type} {p : ε → Bool} {s s' s'' : σ} {a : α} {es es' : List ε}

theorem zoom {q : δ → Bool} {get : σ → τ} {set : τ → σ → σ} {wrap : ε → δ} {m : LogM τ ε α}
    {t' : τ} (hwrap : ∀ e, q (wrap e) = p e) (h : Runs p m (get s) a t' es) :
    Runs q (Logged.zoom get set wrap m) s a (set t' s) (es.map wrap) := by
  obtain ⟨rfl, rfl, rfl⟩ := h
  refine ⟨rfl, rfl, ?_⟩
  show ((m (get s)).events.map wrap).filter q = _
  rw [List.filter_map]
  congr 1
  exact List.filter_congr fun e _ => hwrap e

theorem total {m : LogM σ ε α} (h : Runs p m s a s' es) :
    Runs p (Logged.total m : FailM φ σ ε α) s (.ok a) s' es := by
  rw [← List.append_nil es]
  exact h.bind (Runs.pure p _ s')

theorem okPure (p : ε → Bool) (a : α) (s : σ) :
    Runs p (Pure.pure a : FailM φ σ ε α) s (.ok a) s [] := Runs.pure p _ s

theorem throw (p : ε → Bool) (fault : φ) (s : σ) :
    Runs p (MonadExcept.throw fault : FailM φ σ ε α) s (.error fault) s [] := Runs.pure p _ s

variable {m : FailM φ σ ε α} {f : α → FailM φ σ ε β} {r : Except φ β}

theorem okBind (h : Runs p m s (.ok a) s' es) (hf : Runs p (f a) s' r s'' es') :
    Runs p (m >>= f : FailM φ σ ε β) s r s'' (es ++ es') :=
  Runs.bind (f := ExceptT.bindCont f) h hf

/-- `okBind` after a program that emits nothing `p` keeps. -/
theorem okQuietBind (h : Runs p m s (.ok a) s' []) (hf : Runs p (f a) s' r s'' es) :
    Runs p (m >>= f : FailM φ σ ε β) s r s'' es :=
  Runs.okBind h hf

/-- `okBind` before a program that emits nothing `p` keeps. -/
theorem okBindQuiet (h : Runs p m s (.ok a) s' es) (hf : Runs p (f a) s' r s'' []) :
    Runs p (m >>= f : FailM φ σ ε β) s r s'' es := by
  rw [← List.append_nil es]
  exact Runs.okBind h hf

/-- What follows a fault is not run. -/
theorem faultBind {fault : φ} (h : Runs p m s (.error fault) s' es) :
    Runs p (m >>= f : FailM φ σ ε β) s (.error fault) s' es := by
  rw [← List.append_nil es]
  exact Runs.bind (f := ExceptT.bindCont f) h (Runs.pure p _ s')

end Runs

section

variable {φ σ ε α β : Type} {m : FailM φ σ ε α} {f : α → FailM φ σ ε β} {s : σ}

theorem bind_eq (m : FailM φ σ ε α) (f : α → FailM φ σ ε β) (s : σ) :
    (m >>= f : FailM φ σ ε β) s
      = ⟨(ExceptT.bindCont f (m s).value (m s).state).value,
          (ExceptT.bindCont f (m s).value (m s).state).state,
          (m s).events ++ (ExceptT.bindCont f (m s).value (m s).state).events⟩ := rfl

theorem bind_of_ok {a : α} (h : (m s).value = .ok a) :
    (m >>= f : FailM φ σ ε β) s = ⟨(f a (m s).state).value, (f a (m s).state).state,
      (m s).events ++ (f a (m s).state).events⟩ := by
  rw [bind_eq, h]
  rfl

theorem bind_of_error {fault : φ} (h : (m s).value = .error fault) :
    (m >>= f : FailM φ σ ε β) s = ⟨.error fault, (m s).state, (m s).events⟩ := by
  rw [bind_eq, h]
  exact congrArg (Outcome.mk _ _) (List.append_nil _)

/-- A sequence that returns has run both parts. -/
theorem bind_ok {b : β} (h : ((m >>= f : FailM φ σ ε β) s).value = .ok b) :
    ∃ a, (m s).value = .ok a ∧
      (m >>= f : FailM φ σ ε β) s = ⟨(f a (m s).state).value, (f a (m s).state).state,
        (m s).events ++ (f a (m s).state).events⟩ := by
  cases hvalue : (m s).value with
  | ok a => exact ⟨a, rfl, bind_of_ok hvalue⟩
  | error fault =>
      rw [bind_of_error hvalue] at h
      cases h

/-- What a sequence emits comes from its parts. -/
theorem mem_events_bind {e : ε} (h : e ∈ ((m >>= f : FailM φ σ ε β) s).events) :
    e ∈ (m s).events ∨ ∃ a, (m s).value = .ok a ∧ e ∈ (f a (m s).state).events := by
  cases hvalue : (m s).value with
  | ok a =>
      rw [bind_of_ok hvalue] at h
      exact (List.mem_append.mp h).imp_right fun hrest => ⟨a, rfl, hrest⟩
  | error fault =>
      rw [bind_of_error hvalue] at h
      exact .inl h

end

/-- A property of programs that a sequence has if its parts do. -/
structure Compositional {φ σ ε : Type} (P : {α : Type} → FailM φ σ ε α → Prop) : Prop where
  pure : ∀ {α : Type} (a : α), P (Pure.pure a : FailM φ σ ε α)
  bind : ∀ {α β : Type} {m : FailM φ σ ε α} {f : α → FailM φ σ ε β}, P m → (∀ a, P (f a)) →
    P (m >>= f)

theorem Compositional.ite {φ σ ε : Type} {P : {α : Type} → FailM φ σ ε α → Prop}
    (_ : Compositional P) {α : Type} {c : Prop} [Decidable c] {m m' : FailM φ σ ε α} (ht : P m)
    (hf : P m') : P (if c then m else m') := by
  split
  · exact ht
  · exact hf

end Logged
