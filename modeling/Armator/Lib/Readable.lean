import Mathlib.Data.List.Basic
import Mathlib.Data.List.Infix

set_option autoImplicit false

/-! # Texts that can be read back

`Reads P f v` says: where a text `f a` begins, one can tell `v a` and where the text ends, whatever
follows. Texts are put together from texts of that kind (`Reads.append`, `Reads.tagged`), and a list
of them, written one behind the other, can be read back (`Reads.flatMap`).
-/

namespace Readable

variable {α β γ δ ι : Type}

/-- Among the `a` in `P`, a text `f a` with anything behind it determines `v a` and what is behind
it. -/
def Reads (P : α → Prop) (f : α → List β) (v : α → γ) : Prop :=
  ∀ a a' s s', P a → P a' → f a ++ s = f a' ++ s' → v a = v a' ∧ s = s'

variable {P Q : α → Prop} {f g : α → List β} {v : α → γ} {w : α → δ}

namespace Reads

/-- A text that is always the same. -/
theorem const (P : α → Prop) (l : List β) : Reads P (fun _ => l) fun _ => () :=
  fun _ _ _ _ _ _ h => ⟨rfl, List.append_cancel_left h⟩

theorem mono (h : Reads P f v) (hQ : ∀ a, Q a → P a) : Reads Q f v :=
  fun a a' s s' ha ha' => h a a' s s' (hQ a ha) (hQ a' ha')

/-- Telling less. -/
theorem map (h : Reads P f v) (k : γ → δ) : Reads P f fun a => k (v a) :=
  fun a a' s s' ha ha' heq => (h a a' s s' ha ha' heq).imp_left (congrArg k)

/-- Text behind text; what is behind may depend on what was told first. -/
theorem tagged (h : Reads P f v) (hg : ∀ c, Reads (fun a => P a ∧ v a = c) g w) :
    Reads P (fun a => f a ++ g a) fun a => (v a, w a) := by
  intro a a' s s' ha ha' heq
  rw [List.append_assoc, List.append_assoc] at heq
  obtain ⟨hv, hrest⟩ := h a a' _ _ ha ha' heq
  obtain ⟨hw, hs⟩ := hg (v a') a a' s s' ⟨ha, hv⟩ ⟨ha', rfl⟩ hrest
  exact ⟨Prod.ext hv hw, hs⟩

theorem append (h : Reads P f v) (hg : Reads P g w) :
    Reads P (fun a => f a ++ g a) fun a => (v a, w a) :=
  h.tagged fun _ => hg.mono fun _ ha => ha.1

/-- A text behind one that is always the same. -/
theorem behind (l : List β) (hg : Reads P g w) : Reads P (fun a => l ++ g a) w :=
  ((const P l).append hg).map Prod.snd

/-- A text in front of one that is always the same. -/
theorem before (h : Reads P f v) (l : List β) : Reads P (fun a => f a ++ l) v :=
  (h.append (const P l)).map Prod.fst

/-- Texts of one length. -/
theorem ofLength {n : Nat} (hlength : ∀ a, P a → (f a).length = n)
    (hv : ∀ a a', P a → P a' → f a = f a' → v a = v a') : Reads P f v := by
  intro a a' s s' ha ha' heq
  obtain ⟨hf, hs⟩ := List.append_inj heq ((hlength a ha).trans (hlength a' ha').symm)
  exact ⟨hv a a' ha ha' hf, hs⟩

/-- Another way to put the brackets. -/
theorem assoc {h : α → List β} (hf : Reads P (fun a => f a ++ (g a ++ h a)) v) :
    Reads P (fun a => f a ++ g a ++ h a) v := by
  simp only [List.append_assoc]
  exact hf

/-- Texts that end in front of the first `t`. -/
theorem terminated (t : β) (l : List β) (hfree : ∀ a, P a → t ∉ f a)
    (hv : ∀ a a', P a → P a' → f a = f a' → v a = v a') :
    Reads P (fun a => f a ++ t :: l) v := by
  have hsplit : ∀ x y s s' : List β, t ∉ x → t ∉ y → x ++ t :: s = y ++ t :: s' →
      x = y ∧ s = s' := by
    intro x
    induction x with
    | nil =>
        rintro (_ | ⟨b, y⟩) s s' - hy heq
        · exact ⟨rfl, (List.cons.inj heq).2⟩
        · exact absurd ((List.cons.inj heq).1 ▸ List.mem_cons_self) hy
    | cons b x ih =>
        rintro (_ | ⟨c, y⟩) s s' hx hy heq
        · exact absurd ((List.cons.inj heq).1 ▸ List.mem_cons_self) hx
        · obtain ⟨rfl, hrest⟩ := List.cons.inj heq
          obtain ⟨rfl, hs⟩ := ih y s s' (fun h => hx (List.mem_cons_of_mem _ h))
            (fun h => hy (List.mem_cons_of_mem _ h)) hrest
          exact ⟨rfl, hs⟩
  intro a a' s s' ha ha' heq
  rw [List.append_assoc, List.append_assoc] at heq
  obtain ⟨hf, hs⟩ := hsplit _ _ _ _ (hfree a ha) (hfree a' ha') heq
  exact ⟨hv a a' ha ha' hf, List.append_cancel_left hs⟩

/-- A table of texts none of which begins with another one. -/
theorem table (t : ι → List β) (ht : ∀ i j, t i <+: t j → i = j) (k : α → ι) :
    Reads P (fun a => t (k a)) k := by
  intro a a' s s' _ _ heq
  have heq : t (k a) ++ s = t (k a') ++ s' := heq
  have hk : k a = k a' := by
    rcases List.prefix_or_prefix_of_prefix ⟨s, rfl⟩ ⟨s', heq.symm⟩ with h | h
    · exact ht _ _ h
    · exact (ht _ _ h).symm
  rw [hk] at heq
  exact ⟨hk, List.append_cancel_left heq⟩

/-- Texts in a fixed order. -/
theorem sequence {fs : ι → α → List β} {vs : ι → α → γ} (is : List ι)
    (h : ∀ i ∈ is, Reads P (fs i) (vs i)) :
    Reads P (fun a => is.flatMap (fs · a)) fun a => is.map (vs · a) := by
  induction is with
  | nil => exact (const P []).map fun _ => []
  | cons i is ih =>
      obtain ⟨hi, his⟩ := List.forall_mem_cons.mp h
      exact (hi.append (ih his)).map fun x => x.1 :: x.2

/-- **A list of texts can be read back.** -/
theorem flatMap (h : Reads P f v) (hne : ∀ a, P a → f a ≠ []) {as bs : List α}
    (has : ∀ a ∈ as, P a) (hbs : ∀ b ∈ bs, P b) (heq : as.flatMap f = bs.flatMap f) :
    as.map v = bs.map v := by
  induction as generalizing bs with
  | nil =>
      cases bs with
      | nil => rfl
      | cons b bs =>
          have hnil : f b ++ bs.flatMap f = [] := heq.symm
          exact absurd (List.append_eq_nil_iff.mp hnil).1 (hne b (hbs b List.mem_cons_self))
  | cons a as ih =>
      obtain ⟨ha, has⟩ := List.forall_mem_cons.mp has
      cases bs with
      | nil =>
          have hnil : f a ++ as.flatMap f = [] := heq
          exact absurd (List.append_eq_nil_iff.mp hnil).1 (hne a ha)
      | cons b bs =>
          obtain ⟨hb, hbs⟩ := List.forall_mem_cons.mp hbs
          obtain ⟨hv, hrest⟩ := h a b _ _ ha hb heq
          rw [List.map_cons, List.map_cons, hv, ih has hbs hrest]

end Reads

end Readable
