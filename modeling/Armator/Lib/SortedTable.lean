import Mathlib.Data.List.Sort

set_option autoImplicit false

/-! # Sorted tables in an array

The first `n` entries of an array `t : Int → α` over a linear order. Inserting by shifting
the entries behind the position of the new one is `List.orderedInsert` (`entries_shiftIn`).
A binary search keeps a window that holds every occurrence of what it looks for (`Window`).
-/

namespace SortedTable

section

variable {α : Type}

def entries (t : Int → α) (n : Nat) : List α := (List.range n).map fun k : Nat => t k

@[simp] theorem entries_length (t : Int → α) (n : Nat) : (entries t n).length = n := by
  simp [entries]

@[simp] theorem entries_getElem (t : Int → α) (n : Nat) {k : Nat} (hk : k < (entries t n).length) :
    (entries t n)[k] = t k := by
  simp [entries]

theorem mem_entries {t : Int → α} {n : Nat} {x : α} :
    x ∈ entries t n ↔ ∃ k : Nat, k < n ∧ t k = x := by
  simp [entries]

/-- The entry at an index inside the table. -/
theorem mem_entries_of_inside {t : Int → α} {n : Nat} {i : Int} (hlow : 0 ≤ i) (hup : i < n) :
    t i ∈ entries t n := by
  rw [mem_entries]
  refine ⟨i.toNat, by omega, ?_⟩
  rw [Int.toNat_of_nonneg hlow]

/-- The array after the entries from `i` on have moved up by one and `x` has been stored. -/
def shiftIn (t : Int → α) (i n : Nat) (x : α) : Int → α := fun k =>
  if k = i then x else if i < k ∧ k ≤ n then t (k - 1) else t k

theorem entries_shiftIn (t : Int → α) {i n : Nat} (hi : i ≤ n) (x : α) :
    entries (shiftIn t i n x) (n + 1) = (entries t n).take i ++ x :: (entries t n).drop i := by
  apply List.ext_getElem
  · simp
    omega
  · intro k hk₁ hk₂
    have hk : k < n + 1 := by simpa using hk₁
    have hlength : ((entries t n).take i).length = i := by simp [hi]
    rw [entries_getElem]
    unfold shiftIn
    -- below, at and above the position
    rcases lt_trichotomy k i with hlt | heq | hgt
    · rw [List.getElem_append_left (by omega), List.getElem_take, entries_getElem,
        if_neg (by omega), if_neg (by omega)]
    · subst heq
      rw [List.getElem_append_right (by omega), if_pos rfl]
      simp [hlength]
    · obtain ⟨j, rfl⟩ : ∃ j, k = i + (j + 1) := ⟨k - i - 1, by omega⟩
      rw [List.getElem_append_right (by omega), if_neg (by omega), if_pos (by omega)]
      simp [hlength]
      congr 1
      omega

/-! ## Windows -/

/-- Every occurrence of `x` in the first `n` entries is between `lo` and `hi`. -/
structure Window (t : Int → α) (n : Nat) (x : α) (lo hi : Int) : Prop where
  lower : 0 ≤ lo
  upper : hi < n
  inside : ∀ k : Nat, k < n → t k = x → lo ≤ k ∧ k ≤ hi

variable {t : Int → α} {n : Nat} {x : α} {lo hi : Int}

theorem Window.start : Window t n x 0 (n - 1) where
  lower := Int.le_refl 0
  upper := by omega
  inside k hk _ := by omega

/-- A window of one entry. -/
theorem Window.single (h : Window t n x lo lo) : t lo = x ↔ x ∈ entries t n := by
  have hlow := h.lower
  have hup := h.upper
  rw [mem_entries]
  constructor
  · intro hx
    refine ⟨lo.toNat, by omega, ?_⟩
    rw [Int.toNat_of_nonneg hlow, hx]
  · rintro ⟨k, hk, hx⟩
    have hin := h.inside k hk hx
    rw [show lo = k by omega, hx]

/-- An empty window. -/
theorem Window.empty (h : Window t n x lo hi) (hlt : hi < lo) : x ∉ entries t n := by
  rw [mem_entries]
  rintro ⟨k, hk, hx⟩
  have hin := h.inside k hk hx
  omega

end

/-! ## Sorted tables -/

variable {α : Type} [LinearOrder α]

/-- The entries are in ascending order. -/
def Sorted (t : Int → α) (n : Nat) : Prop := (entries t n).Pairwise (· ≤ ·)

theorem Sorted.le {t : Int → α} {n : Nat} (h : Sorted t n) {i j : Nat} (hij : i ≤ j)
    (hj : j < n) : t i ≤ t j := by
  rcases Nat.eq_or_lt_of_le hij with rfl | hlt
  · exact le_refl _
  · have hpair := List.pairwise_iff_getElem.mp h i j (by simpa using lt_trans hlt hj)
      (by simpa using hj) hlt
    simpa using hpair

/-- `i` is the position at which `x` is inserted before the first entry that is not below. -/
structure IsPosition (t : Int → α) (n : Nat) (x : α) (i : Nat) : Prop where
  le : i ≤ n
  below : ∀ k < i, t k < x
  above : i < n → x ≤ t i

theorem IsPosition.findIdx {t : Int → α} {n i : Nat} {x : α} (h : IsPosition t n x i) :
    (entries t n).findIdx (fun b => !decide (¬ x ≤ b)) = i := by
  rcases Nat.eq_or_lt_of_le h.le with heq | hlt
  · -- every entry is below
    subst heq
    refine (List.findIdx_eq_length_of_false fun b hb => ?_).trans (entries_length t i)
    obtain ⟨k, hk, rfl⟩ := mem_entries.mp hb
    simpa using h.below k hk
  · rw [List.findIdx_eq (by simpa using hlt)]
    refine ⟨by simpa using h.above hlt, fun k hk => ?_⟩
    simpa using h.below k hk

/-- **Shifting is ordered insertion.** -/
theorem IsPosition.entries_shiftIn {t : Int → α} {n i : Nat} {x : α} (h : IsPosition t n x i) :
    entries (shiftIn t i n x) (n + 1) = (entries t n).orderedInsert (· ≤ ·) x := by
  rw [SortedTable.entries_shiftIn t h.le, List.orderedInsert_eq_take_drop,
    List.takeWhile_eq_take_findIdx_not, List.dropWhile_eq_drop_findIdx_not, h.findIdx]

/-! ## Binary search -/

variable {t : Int → α} {n : Nat} {x : α} {lo hi mid : Int}

/-- The entry in the middle is below `x`. -/
theorem Window.right (h : Window t n x lo hi) (hs : Sorted t n) (hmid : lo ≤ mid ∧ mid ≤ hi)
    (hlt : t mid < x) : Window t n x (mid + 1) hi where
  lower := by have := h.lower; omega
  upper := h.upper
  inside k hk hx := by
    refine ⟨?_, (h.inside k hk hx).2⟩
    by_contra hnot
    have hlow := h.lower
    have hup := h.upper
    have hmidNat : t ((mid.toNat : Nat) : Int) = t mid := by
      rw [Int.toNat_of_nonneg (by omega)]
    have hle : t k ≤ t (mid.toNat : Nat) := hs.le (by omega) (by omega)
    rw [hmidNat, hx] at hle
    exact absurd hle (not_le.mpr hlt)

/-- The entry in the middle is above `x`. -/
theorem Window.left (h : Window t n x lo hi) (hs : Sorted t n) (hmid : lo ≤ mid ∧ mid ≤ hi)
    (hlt : x < t mid) : Window t n x lo (mid - 1) where
  lower := h.lower
  upper := by have := h.upper; omega
  inside k hk hx := by
    refine ⟨(h.inside k hk hx).1, ?_⟩
    by_contra hnot
    have hlow := h.lower
    have hmidNat : t ((mid.toNat : Nat) : Int) = t mid := by
      rw [Int.toNat_of_nonneg (by omega)]
    have hle : t (mid.toNat : Nat) ≤ t k := hs.le (by omega) hk
    rw [hmidNat, hx] at hle
    exact absurd hle (not_le.mpr hlt)

end SortedTable
