import Armator.Arch.Alu

set_option autoImplicit false

/-! # Flags as the outcome of a comparison

The flags of `a - b` decide the order of `a` and `b`: C and Z the order of unsigned numbers,
N, Z and V that of signed numbers (`holds_compared`).
-/

namespace Armator.Arch

/-- The difference of `a` and `b` as signed numbers is a signed word. -/
def DifferenceFits (a b : BitVec 32) : Prop :=
  -2 ^ 31 ≤ a.toInt - b.toInt ∧ a.toInt - b.toInt < 2 ^ 31

instance (a b : BitVec 32) : Decidable (DifferenceFits a b) :=
  inferInstanceAs (Decidable (_ ∧ _))

/-- The flags of the comparison of `a` with `b`: the sign of the difference, equality, no
borrow, signed overflow. -/
def compared (a b : BitVec 32) : Flags where
  n := (a - b).getLsbD 31
  z := a = b
  c := b.toNat ≤ a.toNat
  v := ¬ DifferenceFits a b

/-- What a condition says of the words that were compared. MI, PL, VS and VC speak of their
difference. -/
def Condition.relates (a b : BitVec 32) : Condition → Prop
  | EQ => a = b
  | NE => a ≠ b
  | CS => b.toNat ≤ a.toNat
  | CC => a.toNat < b.toNat
  | MI => (a - b).toInt < 0
  | PL => 0 ≤ (a - b).toInt
  | VS => ¬ DifferenceFits a b
  | VC => DifferenceFits a b
  | HI => b.toNat < a.toNat
  | LS => a.toNat ≤ b.toNat
  | GE => b.toInt ≤ a.toInt
  | LT => a.toInt < b.toInt
  | GT => b.toInt < a.toInt
  | LE => a.toInt ≤ b.toInt

variable (a b : BitVec 32)

theorem compared_n : (compared a b).n = true ↔ (a - b).toInt < 0 := by
  have hmsb : (a - b).getLsbD 31 = (a - b).msb := (BitVec.msb_eq_getLsbD_last _).symm
  show (a - b).getLsbD 31 = true ↔ _
  rw [hmsb, BitVec.msb_eq_toInt, decide_eq_true_iff]

theorem compared_z : (compared a b).z = true ↔ a = b := decide_eq_true_iff

theorem compared_c : (compared a b).c = true ↔ b.toNat ≤ a.toNat := decide_eq_true_iff

theorem compared_v : (compared a b).v = true ↔ ¬ DifferenceFits a b := decide_eq_true_iff

/-- Where the exact difference fits, it is the difference of the words; where it does not, the
word has the other sign. -/
theorem sub_toInt_neg_iff : (a - b).toInt < 0 ↔ (a.toInt < b.toInt ↔ DifferenceFits a b) := by
  have ha : -2 ^ 31 ≤ a.toInt ∧ a.toInt < 2 ^ 31 := ⟨BitVec.le_toInt a, BitVec.toInt_lt⟩
  have hb : -2 ^ 31 ≤ b.toInt ∧ b.toInt < 2 ^ 31 := ⟨BitVec.le_toInt b, BitVec.toInt_lt⟩
  rw [DifferenceFits, BitVec.toInt_sub, Int.bmod_def]
  split <;> omega

/-- N and V differ exactly when `a` is below `b` as a signed number. -/
theorem compared_signed : (compared a b).n = (compared a b).v ↔ b.toInt ≤ a.toInt := by
  have hv := compared_v a b
  have hn := compared_n a b
  rw [sub_toInt_neg_iff] at hn
  rw [Bool.eq_iff_iff, hn, hv, ← Int.not_lt]
  by_cases hfits : DifferenceFits a b
  · simp only [hfits, iff_true, not_true_eq_false, iff_false]
  · simp only [hfits, iff_false, not_false_eq_true, iff_true]

/-- **After a comparison each condition decides its relation.** -/
theorem holds_compared (k : Condition) : k.holds (compared a b) = true ↔ k.relates a b := by
  have hz := compared_z a b
  have hc := compared_c a b
  have hs := compared_signed a b
  have hnat : a = b ↔ a.toNat = b.toNat := BitVec.toNat_inj.symm
  have hint : a = b ↔ a.toInt = b.toInt := BitVec.toInt_inj.symm
  have hnot (x : Bool) : (!x) = true ↔ ¬ x = true := by rw [Bool.not_eq_true', Bool.eq_false_iff]
  unfold Condition.holds Condition.relates
  -- every flag stands for a relation; what is left is linear arithmetic
  cases k with
  | EQ => exact hz
  | NE => simp only [hnot, hz, ne_eq]
  | CS => exact hc
  | CC =>
      simp only [hnot, hc]
      omega
  | MI => exact compared_n a b
  | PL =>
      simp only [hnot, compared_n]
      omega
  | VS => exact compared_v a b
  | VC => simp only [hnot, compared_v, not_not]
  | HI =>
      simp only [Bool.and_eq_true, hnot, hc, hz, hnat]
      omega
  | LS =>
      simp only [Bool.or_eq_true, hnot, hc, hz, hnat]
      omega
  | GE => simp only [beq_iff_eq, hs]
  | LT =>
      simp only [bne_iff_ne, ne_eq, hs]
      omega
  | GT =>
      simp only [Bool.and_eq_true, hnot, beq_iff_eq, hs, hz, hint]
      omega
  | LE =>
      simp only [Bool.or_eq_true, bne_iff_ne, ne_eq, hs, hz, hint]
      omega

end Armator.Arch
