import Armator.Laws.Shifter

set_option autoImplicit false

/-! # The index of a scaled register

`load_store_shifts_rotate` is the shifter of loads and stores. It is the shift of the
architecture but for RRX (`loadStoreShiftsRotate_value`), where it joins the two operands with
the logical or, and takes bit 29 of the word for the carry flag.
-/

namespace Armator

open Arch

/-- On every host the index for the value `m` of Rm is the operand that data processing should
produce from the same bits of the word. -/
def ScaledIndexLaw (w m : BitVec 32) (carry : Bool) : Prop :=
  ∀ h, loadStoreShiftsRotate h (getBits w 6 5) (getBits w 11 7) m w
    = immediateShift (shiftKind w) (shiftAmount w) carry m

variable (w m : BitVec 32)

/-- RRX joins its two operands with the logical or. -/
theorem rrxIndex_iff :
    (getBit w C <<< 31 ≠ 0 ∨ m >>> 1 ≠ 0) ↔ (w.getLsbD 29 = true ∨ 2 ≤ m.toNat) := by
  have hcarry : getBit w C <<< 31 ≠ 0 ↔ w.getLsbD 29 = true := by
    rw [C, getBit_eq_ofBool]
    cases w.getLsbD 29 <;> decide
  have hrm : m >>> 1 ≠ 0 ↔ 2 ≤ m.toNat := by
    rw [ne_eq, ← BitVec.toNat_inj, BitVec.toNat_ushiftRight, Nat.shiftRight_eq_div_pow]
    show ¬ m.toNat / 2 ^ 1 = 0 ↔ _
    omega
  rw [hcarry, hrm]

/-- What `load_store_shifts_rotate` computes, for whatever the carry flag is. -/
theorem loadStoreShiftsRotate_value (h : Host) (carry : Bool) :
    loadStoreShiftsRotate h (getBits w 6 5) (getBits w 11 7) m w
      = if shiftKind w = .ROR ∧ shiftAmount w = 0 then
          (if w.getLsbD 29 ∨ 2 ≤ m.toNat then 1 else 0)
        else immediateShift (shiftKind w) (shiftAmount w) carry m := by
  have hlt : shiftAmount w < 32 := shiftAmount_lt w
  have hamount : (getBits w 11 7).toNat = shiftAmount w := getBits_toNat_field w (by decide)
  have hzero : getBits w 11 7 = 0 ↔ shiftAmount w = 0 := bits7_11_eq_zero
  have hbyte : ((getBits w 11 7).setWidth 8).toNat = shiftAmount w := by
    rw [BitVec.toNat_setWidth, hamount]
    omega
  have hsign : getBit m 31 ≠ 0 ↔ ¬ m.getLsbD 31 = false := not_congr getBit_eq_zero
  have hkind : field w 6 5 < 4 := field_lt w 6 5
  unfold loadStoreShiftsRotate shiftKind
  simp only [rrxIndex_iff, hzero, hamount, getBits_toNat_field w (show 6 - 5 < 32 by decide)]
  generalize field w 6 5 = k at hkind
  match k with
  -- LSL, LSR, ASR, ROR; an amount of 0 is a case of its own in the last three
  | 0 => exact if_pos (by omega)
  | 1 =>
      by_cases h0 : shiftAmount w = 0
      · simp [h0, ShiftKind.ofField, immediateShift]
      · rw [if_neg h0]
        refine (if_pos (by omega)).trans ?_
        simp [ShiftKind.ofField, immediateShift, h0]
  | 2 =>
      by_cases h0 : shiftAmount w = 0
      · rw [if_pos h0, if_congr hsign rfl rfl, ite_not, ← sshiftRight_32]
        simp [ShiftKind.ofField, immediateShift, h0]
      · rw [if_neg h0, asr_eq h _ (by omega) (by omega), hbyte]
        simp [ShiftKind.ofField, immediateShift, h0]
  | 3 =>
      by_cases h0 : shiftAmount w = 0
      · simp [h0, ShiftKind.ofField]
      · rw [if_neg h0, ror_eq h _ (by omega) (by omega), hbyte]
        simp [ShiftKind.ofField, immediateShift, h0]

/-- The index that RRX yields is right when the carry flag is clear and the logical or, 0 or 1,
is half of Rm. -/
theorem rrxIndex_eq_iff (carry : Bool) :
    (if w.getLsbD 29 ∨ 2 ≤ m.toNat then (1 : BitVec 32) else 0) = immediateShift .ROR 0 carry m ↔
      carry = false ∧ (m.toNat / 2 = 1 ∨ m.toNat / 2 = 0 ∧ w.getLsbD 29 = false) := by
  have hlow : (if w.getLsbD 29 ∨ 2 ≤ m.toNat then (1 : BitVec 32) else 0).getLsbD 31 = false := by
    split <;> rfl
  cases carry with
  | true =>
      -- the carry flag would be bit 31
      have hset : (immediateShift .ROR 0 true m).getLsbD 31 = true := by simp [immediateShift]
      refine iff_of_false (fun heq => ?_) fun hclear => by cases hclear.1
      rw [heq, hset] at hlow
      cases hlow
  | false =>
      have hclear : immediateShift .ROR 0 false m = m >>> 1 := by simp [immediateShift]
      have hhalf : (m >>> 1).toNat = m.toNat / 2 := by
        rw [BitVec.toNat_ushiftRight, Nat.shiftRight_eq_div_pow, pow_one]
      rw [hclear, ← BitVec.toNat_inj, hhalf, eq_self_iff_true, true_and, apply_ite BitVec.toNat,
        show (1 : BitVec 32).toNat = 1 from rfl, show (0 : BitVec 32).toNat = 0 from rfl]
      cases w.getLsbD 29 with
      | true =>
          rw [if_pos (.inl rfl)]
          simp [eq_comm]
      | false =>
          simp only [Bool.false_eq_true, false_or, and_true]
          split <;> omega

/-- **The index is right unless it is an RRX**, for which the carry flag has to be clear and the
0 or 1 that the logical or yields has to be half of Rm. -/
theorem scaledIndexLaw_iff (carry : Bool) :
    ScaledIndexLaw w m carry ↔
      (shiftKind w = .ROR ∧ shiftAmount w = 0 →
        carry = false ∧ (m.toNat / 2 = 1 ∨ m.toNat / 2 = 0 ∧ w.getLsbD 29 = false)) := by
  unfold ScaledIndexLaw
  simp only [fun h => loadStoreShiftsRotate_value w m h carry]
  by_cases hrrx : shiftKind w = .ROR ∧ shiftAmount w = 0
  · simp only [if_pos hrrx]
    rw [hrrx.1, hrrx.2, rrxIndex_eq_iff]
    exact ⟨fun hlaw _ => hlaw Host.masked, fun hcond _ => hcond ⟨rfl, rfl⟩⟩
  · simp only [if_neg hrrx]
    exact iff_of_true (fun _ => trivial) fun hn => absurd hn hrrx

/-- `LDR r0, [r1, r2, RRX]` with 8 in `r2` is indexed by 1, not by 4. -/
theorem not_scaledIndexLaw_rrx : ¬ ScaledIndexLaw 0xE7910062 8 false := by
  intro hlaw
  exact absurd (hlaw Host.masked) (by decide)

end Armator
