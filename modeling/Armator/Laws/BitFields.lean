import Armator.Basic.Util

set_option autoImplicit false

/-! # Bit fields

`get_bits` and `set_bits` read and write the bits `h` down to `l` of a word and nothing else
(`bitFieldLaw`), although the mask of `set_bits` is put together from two halves.
-/

namespace Armator

/-- What is asked of `get_bits` and `set_bits` at the bits `h` down to `l`. -/
structure BitFieldLaw (h l : Nat) : Prop where
  value : ∀ x, (getBits x h l).toNat = x.toNat / 2 ^ l % 2 ^ (h - l + 1)
  get_set : ∀ x b, b.toNat < 2 ^ (h - l + 1) → getBits (setBits x h l b) h l = b
  set_get : ∀ x, setBits x h l (getBits x h l) = x
  set_set : ∀ x b b', b.toNat < 2 ^ (h - l + 1) → b'.toNat < 2 ^ (h - l + 1) →
    setBits (setBits x h l b') h l b = setBits x h l b
  /-- the other field may reach bit 31 -/
  frame : ∀ x b, b.toNat < 2 ^ (h - l + 1) → ∀ h' l', l' ≤ h' → h' ≤ 31 → h' < l ∨ h < l' →
    getBits (setBits x h l b) h' l' = getBits x h' l'

section

variable {h l i : Nat} {b : BitVec 32}

/-- A value of `n` bits has no bit from `n` on. -/
theorem getLsbD_of_toNat_lt {n : Nat} (hb : b.toNat < 2 ^ n) (hi : n ≤ i) :
    b.getLsbD i = false := by
  rw [← BitVec.testBit_toNat]
  exact Nat.testBit_lt_two_pow (lt_of_lt_of_le hb (Nat.pow_le_pow_right (by decide) hi))

/-- Inside the field the new value, outside the old one. -/
theorem setBits_bit (hl : l ≤ h) (hb : b.toNat < 2 ^ (h - l + 1)) (x : BitVec 32) (hi : i < 32) :
    (setBits x h l b).getLsbD i
      = if l ≤ i ∧ i ≤ h then b.getLsbD (i - l) else x.getLsbD i := by
  rw [setBits_getLsbD x h l b hi]
  by_cases hlow : l ≤ i
  · have hnot : ¬ i < l := by omega
    by_cases hhigh : i ≤ h
    · have hbelow : ¬ h + 1 ≤ i := by omega
      simp [hlow, hnot, hhigh, hbelow]
    · -- the value does not reach beyond the field
      have habove : h + 1 ≤ i := by omega
      have hzero : b.getLsbD (i - l) = false := getLsbD_of_toNat_lt hb (by omega)
      simp [hlow, hnot, hhigh, habove, hzero]
  · have hlt : i < l := by omega
    have hbelow : ¬ h + 1 ≤ i := by omega
    simp [hlow, hlt, hbelow]

end

/-- **`get_bits` and `set_bits` are a lens**, for every field below bit 31. -/
theorem bitFieldLaw {h l : Nat} (hl : l ≤ h) (hh : h ≤ 30) : BitFieldLaw h l := by
  refine ⟨fun x => getBits_toNat x (by omega), fun x b hb => ?_, fun x => ?_,
    fun x b b' hb hb' => ?_, fun x b hb h' l' hl' hh' hdisjoint => ?_⟩
  · apply BitVec.eq_of_getLsbD_eq
    intro i hi
    rw [getBits_getLsbD]
    by_cases hin : i < h - l + 1
    · rw [decide_eq_true hin, Bool.true_and, setBits_bit hl hb x (by omega), if_pos (by omega),
        Nat.add_sub_cancel_left]
    · rw [decide_eq_false hin, Bool.false_and, getLsbD_of_toNat_lt hb (by omega)]
  · have hfield : (getBits x h l).toNat < 2 ^ (h - l + 1) := by
      rw [getBits_toNat x (by omega)]
      exact Nat.mod_lt _ (Nat.two_pow_pos _)
    apply BitVec.eq_of_getLsbD_eq
    intro i hi
    rw [setBits_bit hl hfield x hi]
    split
    · rename_i hin
      rw [getBits_getLsbD, decide_eq_true (by omega), Bool.true_and, Nat.add_sub_cancel' hin.1]
    · rfl
  · apply BitVec.eq_of_getLsbD_eq
    intro i hi
    rw [setBits_bit hl hb _ hi, setBits_bit hl hb x hi, setBits_bit hl hb' x hi]
    split
    · rfl
    · rfl
  · apply BitVec.eq_of_getLsbD_eq
    intro i hi
    rw [getBits_getLsbD, getBits_getLsbD]
    by_cases hin : i < h' - l' + 1
    · rw [setBits_bit hl hb x (by omega), if_neg (by omega)]
    · rw [decide_eq_false hin, Bool.false_and, Bool.false_and]

/-- The field that `Extend_30` fills. -/
theorem bitFieldLaw_30_24 : BitFieldLaw 30 24 := bitFieldLaw (by decide) (by decide)

end Armator
