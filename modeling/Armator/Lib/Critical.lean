import Mathlib.Logic.Function.Basic
import Mathlib.Logic.Relation

set_option autoImplicit false

/-! # Critical sections

Threads share a state, which each of them touches only while it holds the one lock there is.
However their steps are interleaved, the outcome is one of whole critical sections, one after
the other (`Reaches.serial`): a step outside the section of another thread may as well be taken
before that section begins. While a thread is in its section, the others do no more than such
steps (`Held.others`).
-/

namespace Critical

/-- The steps of a thread with private states `τ`. Only `shared` reads and writes the shared
state; it is taken between `lock` and `unlock`. -/
structure Thread (σ τ : Type) where
  own : τ → τ → Prop
  lock : τ → τ → Prop
  shared : τ × σ → τ × σ → Prop
  unlock : τ → τ → Prop

/-- The threads between two sections. -/
structure Quiescent (ι σ : Type) (τ : ι → Type) where
  threads : ∀ i, τ i
  state : σ

/-- The threads at any point of a run. -/
structure Config (ι σ : Type) (τ : ι → Type) extends Quiescent ι σ τ where
  owner : Option ι

variable {ι σ : Type} {τ : ι → Type}

/-- Two quiescent states with the same threads and the same shared state. -/
theorem Quiescent.eq_of {q q' : Quiescent ι σ τ} (hthreads : ∀ j, q.threads j = q'.threads j)
    (hstate : q.state = q'.state) : q = q' := by
  obtain ⟨threads, state⟩ := q
  obtain ⟨threads', state'⟩ := q'
  cases hstate
  cases funext hthreads
  rfl

variable [DecidableEq ι]

def Quiescent.set (q : Quiescent ι σ τ) (i : ι) (t : τ i) : Quiescent ι σ τ :=
  { q with threads := Function.update q.threads i t }

@[simp] theorem Quiescent.set_threads_self (q : Quiescent ι σ τ) (i : ι) (t : τ i) :
    (q.set i t).threads i = t := Function.update_self i t q.threads

theorem Quiescent.set_threads_of_ne (q : Quiescent ι σ τ) {i j : ι} (h : j ≠ i) (t : τ i) :
    (q.set i t).threads j = q.threads j := Function.update_of_ne h t q.threads

@[simp] theorem Quiescent.set_state (q : Quiescent ι σ τ) (i : ι) (t : τ i) :
    (q.set i t).state = q.state := rfl

section

variable (T : ∀ i, Thread σ (τ i))

/-- One step of one thread. -/
inductive Step : Config ι σ τ → Config ι σ τ → Prop
  | own {c : Config ι σ τ} (i : ι) {t : τ i} (h : (T i).own (c.threads i) t) :
      Step c ⟨c.set i t, c.owner⟩
  | lock {c : Config ι σ τ} (i : ι) {t : τ i} (hfree : c.owner = none)
      (h : (T i).lock (c.threads i) t) : Step c ⟨c.set i t, some i⟩
  | shared {c : Config ι σ τ} (i : ι) {t : τ i} {s : σ} (howner : c.owner = some i)
      (h : (T i).shared (c.threads i, c.state) (t, s)) :
      Step c ⟨{ c.set i t with state := s }, c.owner⟩
  | unlock {c : Config ι σ τ} (i : ι) {t : τ i} (howner : c.owner = some i)
      (h : (T i).unlock (c.threads i) t) : Step c ⟨c.set i t, none⟩

/-- Any number of steps. -/
def Reaches : Config ι σ τ → Config ι σ τ → Prop := Relation.ReflTransGen (Step T)

/-- What a thread does inside its section, alone with the shared state. -/
def Body (i : ι) : τ i × σ → τ i × σ → Prop :=
  Relation.ReflTransGen fun x y => ((T i).own x.1 y.1 ∧ x.2 = y.2) ∨ (T i).shared x y

/-- One step outside all sections, or one whole section. -/
inductive Serial : Quiescent ι σ τ → Quiescent ι σ τ → Prop
  | own {q : Quiescent ι σ τ} (i : ι) {t : τ i} (h : (T i).own (q.threads i) t) :
      Serial q (q.set i t)
  | critical {q : Quiescent ι σ τ} (i : ι) {t t' t'' : τ i} {s : σ}
      (hlock : (T i).lock (q.threads i) t) (hbody : Body T i (t, q.state) (t', s))
      (hunlock : (T i).unlock t' t'') : Serial q { q.set i t'' with state := s }

/-- Whole sections one after the other. -/
def Serially : Quiescent ι σ τ → Quiescent ι σ τ → Prop := Relation.ReflTransGen (Serial T)

/-- The run so far is `q` and a section that has begun there. -/
structure Pending (q : Quiescent ι σ τ) (i : ι) (c : Config ι σ τ) : Prop where
  begun : ∃ t, (T i).lock (q.threads i) t ∧ Body T i (t, q.state) (c.threads i, c.state)
  others : ∀ j, j ≠ i → c.threads j = q.threads j

/-- What a run comes to, from `q₀`: whole sections, and one more that has begun if the lock is
held. -/
def SerialUpTo (q₀ : Quiescent ι σ τ) (c : Config ι σ τ) : Prop :=
  match c.owner with
  | none => Serially T q₀ c.toQuiescent
  | some i => ∃ q, Serially T q₀ q ∧ Pending T q i c

end

section

variable {T : ∀ i, Thread σ (τ i)} {q q₀ : Quiescent ι σ τ} {c c' : Config ι σ τ} {i : ι}

theorem serialUpTo_none (h : c.owner = none) :
    SerialUpTo T q₀ c ↔ Serially T q₀ c.toQuiescent := by
  rw [SerialUpTo, h]

theorem serialUpTo_some (h : c.owner = some i) :
    SerialUpTo T q₀ c ↔ ∃ q, Serially T q₀ q ∧ Pending T q i c := by
  rw [SerialUpTo, h]

/-- The section goes on. -/
theorem Pending.extend {t : τ i} {s : σ} (h : Pending T q i c)
    (hstep : ((T i).own (c.threads i) t ∧ c.state = s) ∨
      (T i).shared (c.threads i, c.state) (t, s)) {owner : Option ι} :
    Pending T q i ⟨{ c.set i t with state := s }, owner⟩ := by
  obtain ⟨⟨t₀, hlock, hbody⟩, hothers⟩ := h
  refine ⟨⟨t₀, hlock, ?_⟩, fun j hj => ?_⟩
  · refine Relation.ReflTransGen.tail hbody ?_
    show ((T i).own (c.threads i) ((c.set i t).threads i) ∧ c.state = s) ∨
      (T i).shared (c.threads i, c.state) ((c.set i t).threads i, s)
    rw [Quiescent.set_threads_self]
    exact hstep
  · exact (c.set_threads_of_ne hj t).trans (hothers j hj)

/-- A step of another thread is taken before the section. -/
theorem Pending.before {j : ι} {t : τ j} (hj : j ≠ i) (h : Pending T q i c) {owner : Option ι} :
    Pending T (q.set j t) i ⟨c.set j t, owner⟩ := by
  obtain ⟨⟨t₀, hlock, hbody⟩, hothers⟩ := h
  have hqi : (q.set j t).threads i = q.threads i := q.set_threads_of_ne hj.symm t
  have hci : (c.set j t).threads i = c.threads i := c.set_threads_of_ne hj.symm t
  refine ⟨⟨t₀, ?_, ?_⟩, fun k hk => ?_⟩
  · rw [hqi]
    exact hlock
  · show Body T i (t₀, q.state) ((c.set j t).threads i, c.state)
    rw [hci]
    exact hbody
  · show (c.set j t).threads k = (q.set j t).threads k
    by_cases hkj : k = j
    · subst hkj
      rw [Quiescent.set_threads_self, Quiescent.set_threads_self]
    · rw [c.set_threads_of_ne hkj, q.set_threads_of_ne hkj]
      exact hothers k hk

/-- The section ends. -/
theorem Pending.finish {t : τ i} (h : Pending T q i c) (hunlock : (T i).unlock (c.threads i) t) :
    Serial T q (c.set i t) := by
  obtain ⟨⟨t₀, hlock, hbody⟩, hothers⟩ := h
  have hend : c.set i t = { q.set i t with state := c.state } := by
    refine Quiescent.eq_of (fun j => ?_) rfl
    show (c.set i t).threads j = (q.set i t).threads j
    by_cases hj : j = i
    · subst hj
      rw [Quiescent.set_threads_self, Quiescent.set_threads_self]
    · rw [c.set_threads_of_ne hj, q.set_threads_of_ne hj]
      exact hothers j hj
  rw [hend]
  exact .critical i hlock hbody hunlock

/-- One more step. -/
theorem SerialUpTo.step (h : SerialUpTo T q₀ c) (hstep : Step T c c') : SerialUpTo T q₀ c' := by
  cases hstep with
  | @own i t hown =>
      cases howner : c.owner with
      | none =>
          have hserial := (serialUpTo_none howner).mp h
          exact (serialUpTo_none rfl).mpr (Relation.ReflTransGen.tail hserial (.own i hown))
      | some k =>
          obtain ⟨q, hserial, hpending⟩ := (serialUpTo_some howner).mp h
          by_cases hik : i = k
          · subst hik
            exact (serialUpTo_some rfl).mpr ⟨q, hserial, hpending.extend (.inl ⟨hown, rfl⟩)⟩
          · have hown' : (T i).own (q.threads i) t := by
              rw [← hpending.others i hik]
              exact hown
            exact (serialUpTo_some rfl).mpr
              ⟨q.set i t, Relation.ReflTransGen.tail hserial (.own i hown'), hpending.before hik⟩
  | @lock i t hfree hlock =>
      have hserial := (serialUpTo_none hfree).mp h
      refine (serialUpTo_some rfl).mpr ⟨c.toQuiescent, hserial, ⟨t, hlock, ?_⟩, fun j hj => ?_⟩
      · show Body T i (t, c.state) ((c.set i t).threads i, c.state)
        rw [Quiescent.set_threads_self]
        exact Relation.ReflTransGen.refl
      · exact c.set_threads_of_ne hj t
  | @shared i t s howner hshared =>
      obtain ⟨q, hserial, hpending⟩ := (serialUpTo_some howner).mp h
      rw [howner]
      exact (serialUpTo_some rfl).mpr ⟨q, hserial, hpending.extend (.inr hshared)⟩
  | @unlock i t howner hunlock =>
      obtain ⟨q, hserial, hpending⟩ := (serialUpTo_some howner).mp h
      exact (serialUpTo_none rfl).mpr
        (Relation.ReflTransGen.tail hserial (hpending.finish hunlock))

/-- **Every run is one of whole sections.** -/
theorem Reaches.serial (h : Reaches T c c') (hfree : c.owner = none) :
    SerialUpTo T c.toQuiescent c' := by
  induction h with
  | refl => exact (serialUpTo_none hfree).mpr Relation.ReflTransGen.refl
  | tail _ hstep ih => exact ih.step hstep

theorem Serially.invariant {P : Quiescent ι σ τ → Prop}
    (hserial : ∀ q q', P q → Serial T q q' → P q') (h : Serially T q₀ q) (hP : P q₀) : P q := by
  induction h with
  | refl => exact hP
  | tail _ hstep ih => exact hserial _ _ ih hstep

/-- What whole sections preserve holds whenever the lock is free. -/
theorem Reaches.invariant {P : Quiescent ι σ τ → Prop}
    (hserial : ∀ q q', P q → Serial T q q' → P q') (h : Reaches T c c') (hc : c.owner = none)
    (hc' : c'.owner = none) (hP : P c.toQuiescent) : P c'.toQuiescent :=
  ((serialUpTo_none hc').mp (h.serial hc)).invariant hserial hP

/-- Where the section that is under way began, it held as well. -/
theorem Reaches.pending {P : Quiescent ι σ τ → Prop}
    (hserial : ∀ q q', P q → Serial T q q' → P q') (h : Reaches T c c') (hc : c.owner = none)
    (hc' : c'.owner = some i) (hP : P c.toQuiescent) : ∃ q, P q ∧ Pending T q i c' := by
  obtain ⟨q, hq, hpending⟩ := (serialUpTo_some hc').mp (h.serial hc)
  exact ⟨q, hq.invariant hserial hP, hpending⟩

end

/-! ## A section under way -/

section

variable (T : ∀ i, Thread σ (τ i))

/-- Steps during which thread `i` holds the lock. -/
def Held (i : ι) : Config ι σ τ → Config ι σ τ → Prop :=
  Relation.ReflTransGen fun c c' => Step T c c' ∧ c.owner = some i ∧ c'.owner = some i

end

section

variable {T : ∀ i, Thread σ (τ i)} {c c' : Config ι σ τ} {i : ι}

/-- A step while `i` holds the lock: `i` goes on in its section, and the others are outside of
theirs. -/
theorem Step.held (h : Step T c c') (hc : c.owner = some i) (hc' : c'.owner = some i) :
    Body T i (c.threads i, c.state) (c'.threads i, c'.state) ∧
      ∀ j, j ≠ i → Relation.ReflTransGen (T j).own (c.threads j) (c'.threads j) := by
  cases h with
  | @own k t hown =>
      by_cases hki : k = i
      · subst hki
        refine ⟨.single (.inl ?_), fun j hj => ?_⟩
        · show (T k).own (c.threads k) ((c.set k t).threads k) ∧ c.state = c.state
          rw [Quiescent.set_threads_self]
          exact ⟨hown, rfl⟩
        · show Relation.ReflTransGen (T j).own (c.threads j) ((c.set k t).threads j)
          rw [c.set_threads_of_ne hj]
      · refine ⟨?_, fun j _ => ?_⟩
        · show Body T i (c.threads i, c.state) ((c.set k t).threads i, c.state)
          rw [c.set_threads_of_ne (Ne.symm hki)]
          exact .refl
        · show Relation.ReflTransGen (T j).own (c.threads j) ((c.set k t).threads j)
          by_cases hjk : j = k
          · subst hjk
            rw [Quiescent.set_threads_self]
            exact .single hown
          · rw [c.set_threads_of_ne hjk]
  | lock _ hfree => exact (Option.some_ne_none i (hc.symm.trans hfree)).elim
  | @shared k t s howner hshared =>
      obtain rfl : k = i := Option.some.inj (howner.symm.trans hc)
      refine ⟨.single (.inr ?_), fun j hj => ?_⟩
      · show (T k).shared (c.threads k, c.state) ((c.set k t).threads k, s)
        rw [Quiescent.set_threads_self]
        exact hshared
      · show Relation.ReflTransGen (T j).own (c.threads j) ((c.set k t).threads j)
        rw [c.set_threads_of_ne hj]
  | unlock => exact (Option.some_ne_none i hc'.symm).elim

/-- What the thread with the lock has done. -/
theorem Held.body (h : Held T i c c') :
    Body T i (c.threads i, c.state) (c'.threads i, c'.state) := by
  induction h with
  | refl => exact .refl
  | tail _ hstep ih => exact ih.trans (hstep.1.held hstep.2.1 hstep.2.2).1

/-- What the other threads have done. -/
theorem Held.others (h : Held T i c c') {j : ι} (hj : j ≠ i) :
    Relation.ReflTransGen (T j).own (c.threads j) (c'.threads j) := by
  induction h with
  | refl => exact .refl
  | tail _ hstep ih => exact ih.trans ((hstep.1.held hstep.2.1 hstep.2.2).2 j hj)

/-- Where the thread that holds the lock has taken it. -/
theorem Reaches.lastLock (h : Reaches T c c') (hc : c.owner = none) (hc' : c'.owner = some i) :
    ∃ c₀ t, Reaches T c c₀ ∧ c₀.owner = none ∧ (T i).lock (c₀.threads i) t ∧
      Held T i ⟨c₀.set i t, some i⟩ c' := by
  induction h with
  | refl => exact (Option.some_ne_none i (hc'.symm.trans hc)).elim
  | @tail b c' hruns hstep ih =>
      -- the lock is held before the step too, unless the step takes it
      have hon (hb : b.owner = some i) : ∃ c₀ t, Reaches T c c₀ ∧ c₀.owner = none ∧
          (T i).lock (c₀.threads i) t ∧ Held T i ⟨c₀.set i t, some i⟩ c' := by
        obtain ⟨c₀, t, hruns₀, hfree, hlock, hheld⟩ := ih hb
        exact ⟨c₀, t, hruns₀, hfree, hlock, hheld.tail ⟨hstep, hb, hc'⟩⟩
      cases hstep with
      | own => exact hon hc'
      | @lock k t hfree hlock =>
          obtain rfl : k = i := Option.some.inj hc'
          exact ⟨b, t, hruns, hfree, hlock, .refl⟩
      | shared => exact hon hc'
      | unlock => exact (Option.some_ne_none i hc'.symm).elim

end

/-! ## Who is in its section -/

/-- `inside` says which private states are those of a section. -/
structure Guarded (T : ∀ i, Thread σ (τ i)) (inside : ∀ i, τ i → Prop) : Prop where
  own : ∀ {i} {t t' : τ i}, (T i).own t t' → (inside i t' ↔ inside i t)
  lock : ∀ {i} {t t' : τ i}, (T i).lock t t' → inside i t'
  shared : ∀ {i} {t t' : τ i} {s s' : σ}, (T i).shared (t, s) (t', s') → inside i t'
  unlock : ∀ {i} {t t' : τ i}, (T i).unlock t t' → ¬ inside i t'

/-- The thread that holds the lock is the one in its section. -/
def OwnerInside (inside : ∀ i, τ i → Prop) (c : Config ι σ τ) : Prop :=
  ∀ i, inside i (c.threads i) ↔ c.owner = some i

section

variable {T : ∀ i, Thread σ (τ i)} {inside : ∀ i, τ i → Prop} {c c' : Config ι σ τ}

theorem OwnerInside.step (hT : Guarded T inside) (h : OwnerInside inside c)
    (hstep : Step T c c') : OwnerInside inside c' := by
  intro j
  cases hstep with
  | @own i t hown =>
      show inside j ((c.set i t).threads j) ↔ c.owner = some j
      by_cases hji : j = i
      · subst hji
        rw [Quiescent.set_threads_self, hT.own hown]
        exact h j
      · rw [c.set_threads_of_ne hji]
        exact h j
  | @lock i t hfree hlock =>
      show inside j ((c.set i t).threads j) ↔ some i = some j
      by_cases hji : j = i
      · subst hji
        rw [Quiescent.set_threads_self]
        exact iff_of_true (hT.lock hlock) rfl
      · rw [c.set_threads_of_ne hji, h j, hfree]
        exact iff_of_false (Option.some_ne_none j).symm fun heq => hji (Option.some.inj heq).symm
  | @shared i t s howner hshared =>
      show inside j ((c.set i t).threads j) ↔ c.owner = some j
      by_cases hji : j = i
      · subst hji
        rw [Quiescent.set_threads_self]
        exact iff_of_true (hT.shared hshared) howner
      · rw [c.set_threads_of_ne hji]
        exact h j
  | @unlock i t howner hunlock =>
      show inside j ((c.set i t).threads j) ↔ none = some j
      by_cases hji : j = i
      · subst hji
        rw [Quiescent.set_threads_self]
        exact iff_of_false (hT.unlock hunlock) (Option.some_ne_none j).symm
      · rw [c.set_threads_of_ne hji, h j, howner]
        exact iff_of_false (fun heq => hji (Option.some.inj heq).symm) (Option.some_ne_none j).symm

/-- **Mutual exclusion.** -/
theorem Reaches.ownerInside (hT : Guarded T inside) (h : Reaches T c c')
    (hc : OwnerInside inside c) : OwnerInside inside c' := by
  induction h with
  | refl => exact hc
  | tail _ hstep ih => exact ih.step hT hstep

end

end Critical
