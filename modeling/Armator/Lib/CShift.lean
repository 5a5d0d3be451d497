import Mathlib.Data.List.Basic

set_option autoImplicit false

/-! # The shifts a C program evaluates

C defines a shift when its amount is at least 0 and below the width of the promoted left operand.
A run is described by the list of the shifts it evaluates.
-/

/-- A shift of C: the width of its promoted left operand, and its amount. -/
structure CShift where
  width : Nat
  amount : Int
deriving DecidableEq

namespace CShift

def InRange (s : CShift) : Prop := 0 ≤ s.amount ∧ s.amount < s.width

instance (s : CShift) : Decidable s.InRange := inferInstanceAs (Decidable (_ ∧ _))

@[simp] theorem inRange_mk (width : Nat) (amount : Int) :
    (⟨width, amount⟩ : CShift).InRange ↔ 0 ≤ amount ∧ amount < width := Iff.rfl

/-- All the shifts are defined. -/
def Defined (shifts : List CShift) : Prop := ∀ s ∈ shifts, s.InRange

instance (shifts : List CShift) : Decidable (Defined shifts) :=
  inferInstanceAs (Decidable (∀ s ∈ shifts, s.InRange))

variable {shifts shifts' : List CShift} {s : CShift} {p : Prop} [Decidable p]

@[simp] theorem defined_nil : Defined [] := fun _ hs => by cases hs

@[simp] theorem defined_cons : Defined (s :: shifts) ↔ s.InRange ∧ Defined shifts :=
  List.forall_mem_cons

theorem defined_singleton : Defined [s] ↔ s.InRange := List.forall_mem_singleton

@[simp] theorem defined_append :
    Defined (shifts ++ shifts') ↔ Defined shifts ∧ Defined shifts' :=
  List.forall_mem_append

/-- Shifts that are defined anyway do not matter. -/
theorem Defined.append_iff (h : Defined shifts) : Defined (shifts ++ shifts') ↔ Defined shifts' :=
  defined_append.trans (and_iff_right h)

/-- The shifts of a branch count where it is taken. -/
theorem defined_ite : Defined (if p then shifts else shifts') ↔
    (p → Defined shifts) ∧ (¬ p → Defined shifts') := by
  by_cases hp : p
  · rw [if_pos hp]
    exact ⟨fun hthen => ⟨fun _ => hthen, fun hn => absurd hp hn⟩, fun hboth => hboth.1 hp⟩
  · rw [if_neg hp]
    exact ⟨fun helse => ⟨fun hn => absurd hn hp, fun _ => helse⟩, fun hboth => hboth.2 hp⟩

theorem Defined.ite (h : p → Defined shifts) (h' : ¬ p → Defined shifts') :
    Defined (if p then shifts else shifts') := defined_ite.mpr ⟨h, h'⟩

end CShift
