import Armator.Semantics.Frame

set_option autoImplicit false

/-! # Where a branch goes

`Extend_30` fills the bits 24 to 29 by a bit-field macro; after the shift by 2 that is the
sign extension of the 24-bit field, in words.
-/

namespace Armator

open Arch

/-- The six ones go to the bits 24 to 29. -/
theorem extend30_getLsbD (w : BitVec 32) {i : Nat} (hi : i < 30) :
    (extend30 w).getLsbD i = if i < 24 then w.getLsbD i else w.getLsbD 23 := by
  have hx : (getBits w 23 0).getLsbD i = (decide (i < 24) && w.getLsbD i) := by
    rw [getBits_getLsbD, Nat.zero_add]
  have hones : ∀ k : Fin 6, (0b111111 : BitVec 32).getLsbD k = true := by decide
  have hhigh : ¬ 31 ≤ i := by omega
  unfold extend30
  dsimp only
  by_cases hfield : i < 24
  · have hlow : ¬ 24 ≤ i := by omega
    rw [if_pos hfield]
    split <;> rw [setBits_getLsbD _ _ _ _ (by omega), hx] <;> simp [hfield, hlow, hhigh]
  · have h24 : 24 ≤ i := by omega
    rw [if_neg hfield]
    cases hsign : w.getLsbD 23 with
    | false =>
        rw [if_pos (getBit_eq_zero.mpr hsign), setBits_getLsbD _ _ _ _ (by omega), hx]
        simp [hfield, h24]
    | true =>
        have hone : (0b111111 : BitVec 32).getLsbD (i - 24) = true := hones ⟨i - 24, by omega⟩
        rw [if_neg (getBit_ne_zero.mpr hsign), setBits_getLsbD _ _ _ _ (by omega), hx, hone]
        simp [hfield]

/-- The shift by 2 drops the bits that `extend30` does not fill. -/
theorem extend30_shift (w : BitVec 32) : extend30 w <<< 2 = branchOffset w := by
  have hmsb : (w.extractLsb' 0 24).msb = w.getLsbD 23 := by
    simp [BitVec.msb_eq_getLsbD_last]
  apply BitVec.eq_of_getLsbD_eq
  intro i hi
  rw [branchOffset, BitVec.getLsbD_shiftLeft, BitVec.getLsbD_shiftLeft, BitVec.getLsbD_signExtend,
    hmsb, BitVec.getLsbD_extractLsb', extend30_getLsbD w (show i - 2 < 30 by omega)]
  by_cases hfield : i - 2 < 24
  · simp [hfield, show i - 2 < 32 by omega]
  · simp [hfield, show i - 2 < 32 by omega]

/-- The pc an instruction reads is the address it was fetched from plus 8. -/
theorem regValue_fetched {c : ArmCore} (hpc : c.Aligned) : c.fetched.regValue 15 = c.pc + 8 := by
  rw [c.regValue_fetched_eq, ArmCore.operand, if_pos rfl, hpc.fetchAddress]

/-- A branch goes to its address plus 8 plus the displacement. -/
theorem branchTarget_fetched {c : ArmCore} (hpc : c.Aligned) (w : BitVec 32) :
    branchTarget w c.fetched = c.pc + 8 + branchOffset w := by
  rw [branchTarget, regValue_fetched hpc, extend30_shift]

theorem branchOffset_toNat_mod (w : BitVec 32) : (branchOffset w).toNat % 4 = 0 := by
  rw [branchOffset, BitVec.toNat_shiftLeft, Nat.shiftLeft_eq]
  omega

/-- The displacement as a number: four times the signed field, modulo `2^32`. -/
theorem branchOffset_eq_ofInt (w : BitVec 32) :
    branchOffset w = BitVec.ofInt 32 (4 * (w.extractLsb' 0 24).toInt) := by
  calc branchOffset w = BitVec.ofInt 32 (w.extractLsb' 0 24).toInt <<< 2 := rfl
    _ = BitVec.ofInt 32 (w.extractLsb' 0 24).toInt * BitVec.twoPow 32 2 :=
        BitVec.shiftLeft_eq_mul_twoPow _ _
    _ = BitVec.ofInt 32 4 * BitVec.ofInt 32 (w.extractLsb' 0 24).toInt := BitVec.mul_comm _ _
    _ = BitVec.ofInt 32 (4 * (w.extractLsb' 0 24).toInt) := (BitVec.ofInt_mul _ _).symm

end Armator
