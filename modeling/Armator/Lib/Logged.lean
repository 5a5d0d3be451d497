import Mathlib.Logic.Basic

set_option autoImplicit false

/-! # Programs over a state that append to an event log

`LogM σ ε α` is a deterministic program over a state `σ`. It returns an `α` and the list of
the events it has emitted; it cannot read the events back. `Runs p m s a s' es` is its
big-step semantics seen through a filter `p` on events: from `s`, `m` returns `a`, ends in
`s'`, and the emitted events that `p` keeps are `es`. A program is verified by one `Runs`
lemma per function, glued with `Runs.bind`.
-/

namespace Logged

/-- What a program did: its result, the state it ended in, the events in order. -/
structure Outcome (σ ε α : Type) where
  value : α
  state : σ
  events : List ε

def LogM (σ ε α : Type) : Type := σ → Outcome σ ε α

variable {σ ε α β : Type}

instance : Monad (LogM σ ε) where
  pure a := fun s => ⟨a, s, []⟩
  bind m f := fun s =>
    let r := m s
    let r' := f r.value r.state
    ⟨r'.value, r'.state, r.events ++ r'.events⟩

def emit (e : ε) : LogM σ ε Unit := fun s => ⟨(), s, [e]⟩

def getState : LogM σ ε σ := fun s => ⟨s, s, []⟩

def modifyState (f : σ → σ) : LogM σ ε Unit := fun s => ⟨(), f s, []⟩

theorem bind_assoc {γ : Type} (m : LogM σ ε α) (f : α → LogM σ ε β) (g : β → LogM σ ε γ) :
    (m >>= f) >>= g = m >>= fun a => f a >>= g := by
  funext s
  simp only [Bind.bind, List.append_assoc]

instance : LawfulMonad (LogM σ ε) :=
  LawfulMonad.mk' (LogM σ ε)
    (fun m => funext fun s => congrArg (Outcome.mk _ _) (List.append_nil (m s).events))
    (fun _ _ => rfl) bind_assoc

/-- From `s`, `m` returns `a` and ends in `s'`; of its events, `p` keeps `es`. -/
structure Runs (p : ε → Bool) (m : LogM σ ε α) (s : σ) (a : α) (s' : σ) (es : List ε) :
    Prop where
  value : (m s).value = a
  state : (m s).state = s'
  events : (m s).events.filter p = es

variable {p : ε → Bool} {m : LogM σ ε α} {s s' s'' : σ} {a : α} {b : β} {es es' : List ε}

namespace Runs

theorem pure (p : ε → Bool) (a : α) (s : σ) : Runs p (Pure.pure a : LogM σ ε α) s a s [] :=
  ⟨rfl, rfl, rfl⟩

theorem bind {f : α → LogM σ ε β} (h : Runs p m s a s' es) (hf : Runs p (f a) s' b s'' es') :
    Runs p (m >>= f) s b s'' (es ++ es') := by
  obtain ⟨rfl, rfl, rfl⟩ := h
  obtain ⟨rfl, rfl, rfl⟩ := hf
  exact ⟨rfl, rfl, List.filter_append _ _⟩

/-- `bind` after a program that emits nothing `p` keeps. -/
theorem quietBind {f : α → LogM σ ε β} (h : Runs p m s a s' [])
    (hf : Runs p (f a) s' b s'' es) : Runs p (m >>= f) s b s'' es :=
  h.bind hf

/-- Replacing the result of a program. -/
theorem thenReturn (h : Runs p m s a s' es) (b : β) :
    Runs p (m >>= fun _ => Pure.pure b) s b s' es := by
  rw [← List.append_nil es]
  exact h.bind (Runs.pure p b s')

theorem getState (p : ε → Bool) (s : σ) : Runs p (getState : LogM σ ε σ) s s s [] :=
  ⟨rfl, rfl, rfl⟩

theorem modifyState (p : ε → Bool) (f : σ → σ) (s : σ) :
    Runs p (modifyState f : LogM σ ε Unit) s () (f s) [] := ⟨rfl, rfl, rfl⟩

theorem emit_hidden {e : ε} (s : σ) (he : p e = false) :
    Runs p (emit e : LogM σ ε Unit) s () s [] :=
  ⟨rfl, rfl, by simp [emit, he]⟩

theorem emit_kept {e : ε} (s : σ) (he : p e = true) :
    Runs p (emit e : LogM σ ε Unit) s () s [e] :=
  ⟨rfl, rfl, by simp [emit, he]⟩

theorem ite {c : Prop} [Decidable c] {m' : LogM σ ε α} (ht : c → Runs p m s a s' es)
    (hf : ¬c → Runs p m' s a s' es) : Runs p (if c then m else m') s a s' es := by
  by_cases hc : c
  · rw [if_pos hc]; exact ht hc
  · rw [if_neg hc]; exact hf hc

/-- A test that decides the result. -/
theorem iteValue {c : Prop} [Decidable c] {m' : LogM σ ε α} {a' : α}
    (ht : Runs p m s a s' es) (hf : Runs p m' s a' s' es) :
    Runs p (if c then m else m') s (if c then a else a') s' es := by
  by_cases hc : c
  · rw [if_pos hc, if_pos hc]; exact ht
  · rw [if_neg hc, if_neg hc]; exact hf

end Runs

/-! ## Observers -/

/-- `m` leaves the state alone and emits nothing `p` keeps. -/
def Quiet (p : ε → Bool) (m : LogM σ ε α) : Prop := ∀ s, Runs p m s (m s).value s []

namespace Quiet

theorem of_runs {f : σ → α} (h : ∀ s, Runs p m s (f s) s []) : Quiet p m := fun s => by
  rw [(h s).value]; exact h s

theorem pure (p : ε → Bool) (a : α) : Quiet p (Pure.pure a : LogM σ ε α) :=
  fun s => Runs.pure p a s

theorem bind {f : α → LogM σ ε β} (h : Quiet p m) (hf : ∀ a, Quiet p (f a)) :
    Quiet p (m >>= f) := by
  intro s
  have hm := (h s).bind (hf (m s).value s)
  rw [hm.value]
  exact hm

end Quiet

/-! ## Properties of sequences -/

/-- A property of programs that a sequence has if its parts do. -/
structure Sequential {σ ε : Type} (P : {α : Type} → LogM σ ε α → Prop) : Prop where
  pure : ∀ {α : Type} (a : α), P (Pure.pure a : LogM σ ε α)
  bind : ∀ {α β : Type} {m : LogM σ ε α} {f : α → LogM σ ε β}, P m → (∀ a, P (f a)) → P (m >>= f)

theorem Sequential.ite {P : {α : Type} → LogM σ ε α → Prop} (_ : Sequential P) {c : Prop}
    [Decidable c] {m m' : LogM σ ε α} (ht : P m) (hf : P m') : P (if c then m else m') := by
  split
  · exact ht
  · exact hf

theorem sequential_quiet (p : ε → Bool) : Sequential fun {_} (m : LogM σ ε _) => Quiet p m :=
  ⟨fun a => Quiet.pure p a, fun h hf => h.bind hf⟩

/-! ## Bounds on what is emitted -/

/-- From `s`, `m` returns `a` and ends in `s'`; every event it emits has the property `P`. -/
structure RunsWithin (P : ε → Prop) (m : LogM σ ε α) (s : σ) (a : α) (s' : σ) : Prop where
  value : (m s).value = a
  state : (m s).state = s'
  events : ∀ e ∈ (m s).events, P e

namespace RunsWithin

variable {P Q : ε → Prop}

theorem pure (P : ε → Prop) (a : α) (s : σ) :
    RunsWithin P (Pure.pure a : LogM σ ε α) s a s := ⟨rfl, rfl, fun _ he => by cases he⟩

theorem bind {f : α → LogM σ ε β} (h : RunsWithin P m s a s')
    (hf : RunsWithin P (f a) s' b s'') : RunsWithin P (m >>= f) s b s'' := by
  obtain ⟨rfl, rfl, hevents⟩ := h
  obtain ⟨rfl, rfl, hevents'⟩ := hf
  exact ⟨rfl, rfl, List.forall_mem_append.mpr ⟨hevents, hevents'⟩⟩

theorem getState (P : ε → Prop) (s : σ) : RunsWithin P (getState : LogM σ ε σ) s s s :=
  ⟨rfl, rfl, fun _ he => by cases he⟩

theorem modifyState (P : ε → Prop) (f : σ → σ) (s : σ) :
    RunsWithin P (modifyState f : LogM σ ε Unit) s () (f s) :=
  ⟨rfl, rfl, fun _ he => by cases he⟩

theorem emit {e : ε} (he : P e) (s : σ) : RunsWithin P (emit e : LogM σ ε Unit) s () s :=
  ⟨rfl, rfl, List.forall_mem_singleton.mpr he⟩

theorem mono (h : RunsWithin P m s a s') (hPQ : ∀ e, P e → Q e) : RunsWithin Q m s a s' :=
  ⟨h.value, h.state, fun e he => hPQ e (h.events e he)⟩

end RunsWithin

end Logged
