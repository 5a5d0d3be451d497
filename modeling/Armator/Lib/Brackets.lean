import Mathlib.Algebra.BigOperators.Group.List.Basic
import Mathlib.Algebra.Ring.Int.Defs
import Mathlib.Data.Int.Order.Basic
import Mathlib.Data.List.Infix

set_option autoImplicit false

/-! # Brackets that are closed out of order

Each letter moves a level by its weight: an opening bracket by 1, a closing one by -1. A word is
`Level n` if it ends on the level it began on and on the way is never below it, nor more than `n`
above it. A pair may be put around a word with the closing bracket at any place behind the opening
one (`Level.insert`): the levels do not tell which bracket a closing one belongs to.
-/

namespace Brackets

variable {α : Type} {weight : α → Int}

/-- How far a word moves the level. -/
def climb (weight : α → Int) (w : List α) : Int := (w.map weight).sum

@[simp] theorem climb_nil : climb weight [] = 0 := rfl

@[simp] theorem climb_cons (a : α) (w : List α) :
    climb weight (a :: w) = weight a + climb weight w := by
  rw [climb, List.map_cons, List.sum_cons, climb]

@[simp] theorem climb_append (v w : List α) :
    climb weight (v ++ w) = climb weight v + climb weight w := by
  rw [climb, List.map_append, List.sum_append, climb, climb]

/-- Back on its level in the end, and at most `n` above it before. -/
structure Level (weight : α → Int) (n : Nat) (w : List α) : Prop where
  back : climb weight w = 0
  within : ∀ p, p <+: w → 0 ≤ climb weight p ∧ climb weight p ≤ n

/-- A beginning of two words is one of the first, or all of it and one of the second. -/
theorem split_prefix {p v w : List α} (h : p <+: v ++ w) :
    p <+: v ∨ ∃ q, p = v ++ q ∧ q <+: w := by
  have hcases := List.prefix_or_prefix_of_prefix h (List.prefix_append v w)
  refine hcases.imp_right fun hlong => ?_
  obtain ⟨q, rfl⟩ := hlong
  rw [List.prefix_append_right_inj] at h
  exact ⟨q, rfl, h⟩

variable {n m : Nat} {v w : List α} {a b : α}

theorem level_nil : Level weight n [] := by
  refine ⟨rfl, fun p hp => ?_⟩
  rw [List.prefix_nil.mp hp]
  exact ⟨le_refl 0, Int.natCast_nonneg n⟩

theorem Level.mono (h : Level weight n w) (hnm : n ≤ m) : Level weight m w :=
  ⟨h.back, fun p hp => ⟨(h.within p hp).1, (h.within p hp).2.trans (Int.ofNat_le.mpr hnm)⟩⟩

theorem Level.append (hv : Level weight n v) (hw : Level weight n w) :
    Level weight n (v ++ w) := by
  refine ⟨by rw [climb_append, hv.back, hw.back, add_zero], fun p hp => ?_⟩
  rcases split_prefix hp with hfirst | ⟨q, rfl, hsecond⟩
  · exact hv.within p hfirst
  · rw [climb_append, hv.back, zero_add]
    exact hw.within q hsecond

/-- A letter that is no bracket. -/
theorem level_singleton (ha : weight a = 0) : Level weight n [a] := by
  refine ⟨by rw [climb_cons, ha, climb_nil, add_zero], fun p hp => ?_⟩
  rcases List.prefix_cons_iff.mp hp with rfl | ⟨q, rfl, hq⟩
  · exact ⟨le_refl 0, Int.natCast_nonneg n⟩
  · rw [List.prefix_nil.mp hq, climb_cons, ha, climb_nil, add_zero]
    exact ⟨le_refl 0, Int.natCast_nonneg n⟩

/-- A pair of brackets around a word, closed anywhere. -/
theorem Level.insert (ha : weight a = 1) (hb : weight b = -1) (h : Level weight n (v ++ w)) :
    Level weight (n + 1) (a :: (v ++ b :: w)) := by
  have hn : ((n + 1 : Nat) : Int) = n + 1 := Int.natCast_succ n
  have hwithin (p : List α) (hp : p <+: v ++ w) := h.within p hp
  refine ⟨?_, fun p hp => ?_⟩
  · have hback := h.back
    rw [climb_append] at hback
    rw [climb_cons, climb_append, climb_cons, ha, hb]
    omega
  · rcases List.prefix_cons_iff.mp hp with rfl | ⟨q, rfl, hq⟩
    · exact ⟨le_refl 0, Int.natCast_nonneg _⟩
    · rw [climb_cons, ha, hn]
      rcases split_prefix hq with hv | ⟨r, rfl, hr⟩
      · -- inside the pair, one level up
        have := hwithin q (hv.trans (List.prefix_append v w))
        omega
      · rcases List.prefix_cons_iff.mp hr with rfl | ⟨s, rfl, hs⟩
        · have := hwithin v (List.prefix_append v w)
          rw [List.append_nil]
          omega
        · -- behind the pair, on the level of the word
          have := hwithin (v ++ s) ((List.prefix_append_right_inj v).mpr hs)
          rw [climb_append] at this
          rw [climb_append, climb_cons, hb]
          omega

end Brackets
