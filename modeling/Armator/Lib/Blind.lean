import Armator.Lib.Logged
import Mathlib.Data.List.Forall2

set_option autoImplicit false

/-! # Programs that cannot tell two states apart

A program is blind to a relation `R` if from related states it returns the same, emits events that
are related by `E`, and leaves related states, as long as all its events are allowed. A sequence of
blind programs is blind (`sequential_blind`).
-/

namespace Logged

variable {σ ε α β : Type} {R : σ → σ → Prop} {E : ε → ε → Prop} {allowed : ε → Prop}

/-- The same result, related states and related events. -/
structure Outcome.Related (R : σ → σ → Prop) (E : ε → ε → Prop) (o o' : Outcome σ ε α) : Prop where
  value : o'.value = o.value
  state : R o.state o'.state
  events : List.Forall₂ E o.events o'.events

/-- The same events. -/
theorem Outcome.Related.ofEq {o o' : Outcome σ ε α} {t' : σ} (h : o' = ⟨o.value, t', o.events⟩)
    (hstate : R o.state t') : o.Related R (· = ·) o' := by
  subst h
  refine ⟨rfl, hstate, ?_⟩
  rw [List.forall₂_eq_eq_eq]

/-- From states related by `R`, `m` does the same, as long as its events are allowed. -/
def Blind (R : σ → σ → Prop) (E : ε → ε → Prop) (allowed : ε → Prop) (m : LogM σ ε α) : Prop :=
  ∀ s s', R s s' → (∀ e ∈ (m s).events, allowed e) → (m s).Related R E (m s')

namespace Blind

theorem pure (a : α) : Blind R E allowed (Pure.pure a : LogM σ ε α) :=
  fun _ _ h _ => ⟨rfl, h, .nil⟩

theorem emit {e : ε} (he : E e e) : Blind R E allowed (emit e : LogM σ ε Unit) :=
  fun _ _ h _ => ⟨rfl, h, .cons he .nil⟩

theorem bind {m : LogM σ ε α} {f : α → LogM σ ε β} (hm : Blind R E allowed m)
    (hf : ∀ a, Blind R E allowed (f a)) : Blind R E allowed (m >>= f) := by
  intro s s' h hevents
  obtain ⟨hfirst, hsecond⟩ := List.forall_mem_append.mp hevents
  have hrun := hm s s' h hfirst
  have hrun' := hf (m s).value _ _ hrun.state hsecond
  show Outcome.Related R E _ ⟨(f (m s').value (m s').state).value,
    (f (m s').value (m s').state).state, (m s').events ++ (f (m s').value (m s').state).events⟩
  rw [hrun.value]
  exact ⟨hrun'.value, hrun'.state, List.rel_append hrun.events hrun'.events⟩

end Blind

theorem sequential_blind (R : σ → σ → Prop) {E : ε → ε → Prop} (allowed : ε → Prop) :
    Sequential fun {_} (m : LogM σ ε _) => Blind R E allowed m := ⟨Blind.pure, Blind.bind⟩

end Logged
