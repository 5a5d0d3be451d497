import Armator.Lib.CString
import Mathlib.Order.Defs.LinearOrder

set_option autoImplicit false

/-! # The order of C strings

`strcmp` compares byte by byte, as unsigned characters, and a string that ends counts as
having a NUL there. On strings without NUL this is a linear order (`CStr`).
-/

namespace CString

/-- What a C string pointer reaches, up to its NUL. -/
structure CStr where
  bytes : List Byte
  nulFree : ∀ b ∈ bytes, b ≠ 0
deriving DecidableEq

/-- The difference of the first bytes that differ. -/
def compareBytes : List Byte → List Byte → Int
  | [], [] => 0
  | [], b :: _ => 0 - b.toNat
  | a :: _, [] => a.toNat - 0
  | a :: as, b :: bs => if a = b then compareBytes as bs else a.toNat - b.toNat

def strcmp (s t : CStr) : Int := compareBytes s.bytes t.bytes

theorem toNat_pos {b : Byte} (hb : b ≠ 0) : 0 < b.toNat := by
  rw [Nat.pos_iff_ne_zero]
  intro hzero
  exact hb (BitVec.eq_of_toNat_eq hzero)

theorem compareBytes_swap (as bs : List Byte) : compareBytes bs as = -compareBytes as bs := by
  induction as generalizing bs with
  | nil => cases bs <;> simp [compareBytes]
  | cons a as ih =>
      cases bs with
      | nil => simp [compareBytes]
      | cons b bs =>
          by_cases hab : a = b
          · simp [compareBytes, hab, ih bs]
          · simp [compareBytes, hab, Ne.symm hab]

theorem compareBytes_eq_zero {as bs : List Byte} (ha : ∀ b ∈ as, b ≠ 0) (hb : ∀ b ∈ bs, b ≠ 0) :
    compareBytes as bs = 0 ↔ as = bs := by
  induction as generalizing bs with
  | nil =>
      cases bs with
      | nil => simp [compareBytes]
      | cons b bs =>
          have hpos := toNat_pos (hb b List.mem_cons_self)
          simp only [compareBytes, List.nil_eq, reduceCtorEq, iff_false]
          omega
  | cons a as ih =>
      cases bs with
      | nil =>
          have hpos := toNat_pos (ha a List.mem_cons_self)
          simp only [compareBytes, reduceCtorEq, iff_false]
          omega
      | cons b bs =>
          by_cases hab : a = b
          · rw [compareBytes, if_pos hab, ih (fun x hx => ha x (List.mem_cons_of_mem a hx))
              (fun x hx => hb x (List.mem_cons_of_mem b hx)), List.cons_eq_cons]
            exact (and_iff_right hab).symm
          · have hne : a.toNat ≠ b.toNat := fun heq => hab (BitVec.eq_of_toNat_eq heq)
            rw [compareBytes, if_neg hab, List.cons_eq_cons]
            constructor
            · omega
            · rintro ⟨heq, _⟩
              exact absurd heq hab

theorem compareBytes_trans {as bs cs : List Byte} (hb : ∀ b ∈ bs, b ≠ 0)
    (hc : ∀ b ∈ cs, b ≠ 0) (hab : compareBytes as bs ≤ 0) (hbc : compareBytes bs cs ≤ 0) :
    compareBytes as cs ≤ 0 := by
  induction as generalizing bs cs with
  | nil => cases cs <;> simp [compareBytes]
  | cons a as ih =>
      cases bs with
      | nil =>
          cases cs with
          | nil => exact hab
          | cons c cs =>
              simp only [compareBytes] at hab
              by_cases hac : a = c
              · have hpos := toNat_pos (hc c List.mem_cons_self)
                rw [hac] at hab
                omega
              · simp only [compareBytes, if_neg hac]
                omega
      | cons b bs =>
          have hbpos := toNat_pos (hb b List.mem_cons_self)
          cases cs with
          | nil =>
              simp only [compareBytes] at hbc
              omega
          | cons c cs =>
              simp only [compareBytes] at hab hbc ⊢
              -- only three equal first bytes leave the decision to the rests
              by_cases h₁ : a = b
              · subst h₁
                by_cases h₂ : a = c
                · subst h₂
                  rw [if_pos rfl] at hab hbc ⊢
                  exact ih (fun x hx => hb x (List.mem_cons_of_mem _ hx))
                    (fun x hx => hc x (List.mem_cons_of_mem _ hx)) hab hbc
                · rw [if_neg h₂] at hbc ⊢
                  exact hbc
              · rw [if_neg h₁] at hab
                have hne : a.toNat ≠ b.toNat := fun heq => h₁ (BitVec.eq_of_toNat_eq heq)
                by_cases h₂ : b = c
                · subst h₂
                  rw [if_neg h₁]
                  exact hab
                · rw [if_neg h₂] at hbc
                  have hac : a ≠ c := by
                    rintro rfl
                    omega
                  rw [if_neg hac]
                  omega

namespace CStr

theorem ext_bytes {s t : CStr} (h : s.bytes = t.bytes) : s = t := by
  cases s
  cases t
  cases h
  rfl

theorem strcmp_swap (s t : CStr) : strcmp t s = -strcmp s t := compareBytes_swap _ _

theorem strcmp_eq_zero {s t : CStr} : strcmp s t = 0 ↔ s = t := by
  rw [strcmp, compareBytes_eq_zero s.nulFree t.nulFree]
  exact ⟨ext_bytes, congrArg CStr.bytes⟩

/-- Strings in the order of `strcmp`. -/
instance : LinearOrder CStr where
  le s t := strcmp s t ≤ 0
  lt s t := strcmp s t < 0
  le_refl s := Int.le_of_eq (strcmp_eq_zero.mpr rfl)
  le_trans s t r := compareBytes_trans t.nulFree r.nulFree
  le_antisymm s t := by
    intro hst hts
    have hswap := strcmp_swap s t
    exact strcmp_eq_zero.mp (by omega)
  le_total s t := by
    have hswap := strcmp_swap s t
    omega
  lt_iff_le_not_ge s t := by
    have hswap := strcmp_swap s t
    omega
  toDecidableLE s t := inferInstanceAs (Decidable (strcmp s t ≤ 0))
  toDecidableLT s t := inferInstanceAs (Decidable (strcmp s t < 0))

end CStr

end CString
