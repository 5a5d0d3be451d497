import Mathlib.Logic.Function.Basic

set_option autoImplicit false

/-! # Stores updated cell by cell: the last write wins

A store is a function `α → β`, an update list a `List (α × β)` applied from left to right.
`lastWrite us a` is the value the list last gives to the cell `a`, if any; it determines the
store after the updates (`applyUpdates_eq`).
-/

namespace LastWrite

variable {α β : Type} [DecidableEq α]

def applyUpdates (us : List (α × β)) (f : α → β) : α → β :=
  us.foldl (fun g u => Function.update g u.1 u.2) f

/-- The value of the last update of `a` in `us`. -/
def lastWrite : List (α × β) → α → Option β
  | [], _ => none
  | u :: us, a => (lastWrite us a).or (if u.1 = a then some u.2 else none)

@[simp] theorem applyUpdates_nil (f : α → β) : applyUpdates [] f = f := rfl

@[simp] theorem applyUpdates_cons (u : α × β) (us : List (α × β)) (f : α → β) :
    applyUpdates (u :: us) f = applyUpdates us (Function.update f u.1 u.2) := rfl

theorem applyUpdates_append (us vs : List (α × β)) (f : α → β) :
    applyUpdates (us ++ vs) f = applyUpdates vs (applyUpdates us f) :=
  List.foldl_append

/-- After a list of updates a cell holds its last update, or its old content. -/
theorem applyUpdates_eq (us : List (α × β)) (f : α → β) (a : α) :
    applyUpdates us f a = (lastWrite us a).getD (f a) := by
  induction us generalizing f with
  | nil => rfl
  | cons u us ih =>
      rw [applyUpdates_cons, ih, lastWrite]
      cases lastWrite us a with
      | some b => rfl
      | none =>
          by_cases h : u.1 = a
          · simp [h]
          · simp [h, Function.update_of_ne (Ne.symm h)]

theorem lastWrite_eq_none {us : List (α × β)} {a : α} :
    lastWrite us a = none ↔ ∀ u ∈ us, u.1 ≠ a := by
  induction us with
  | nil => simp [lastWrite]
  | cons u us ih =>
      rw [lastWrite, Option.or_eq_none_iff, ih]
      simp [and_comm]

/-- Frame: a cell that no update names keeps its content. -/
theorem applyUpdates_of_forall_ne {us : List (α × β)} {a : α} (h : ∀ u ∈ us, u.1 ≠ a)
    (f : α → β) : applyUpdates us f a = f a := by
  rw [applyUpdates_eq, lastWrite_eq_none.mpr h, Option.getD_none]

/-- A cell depends on its own old content only. -/
theorem applyUpdates_congr (us : List (α × β)) {f g : α → β} {a : α} (h : f a = g a) :
    applyUpdates us f a = applyUpdates us g a := by
  rw [applyUpdates_eq, applyUpdates_eq, h]

/-- Updates with the values that are there change nothing. -/
theorem applyUpdates_zip_self (as : List α) (f : α → β) :
    applyUpdates (as.zip (as.map f)) f = f := by
  induction as with
  | nil => rfl
  | cons a as ih =>
      rw [List.map_cons, List.zip_cons_cons, applyUpdates_cons, Function.update_eq_self, ih]

/-- Updates of distinct cells leave their values there. -/
theorem applyUpdates_zip {as : List α} (has : as.Nodup) {bs : List β}
    (hlength : as.length = bs.length) (f : α → β) :
    as.map (applyUpdates (as.zip bs) f) = bs := by
  induction as generalizing bs f with
  | nil => exact (List.eq_nil_of_length_eq_zero hlength.symm).symm
  | cons a as ih =>
      cases bs with
      | nil => cases hlength
      | cons b bs =>
          obtain ⟨ha, has⟩ := List.nodup_cons.mp has
          have hother : ∀ u ∈ as.zip bs, u.1 ≠ a := fun u hu heq =>
            ha (heq ▸ (List.of_mem_zip hu).1)
          rw [List.zip_cons_cons, List.map_cons, applyUpdates_cons,
            applyUpdates_of_forall_ne hother, Function.update_self, ih has (Nat.succ.inj hlength)]

end LastWrite
