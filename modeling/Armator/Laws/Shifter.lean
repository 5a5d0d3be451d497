import Armator.Arch.Operand
import Armator.Semantics.Step

set_option autoImplicit false

/-! # The immediate-shift law of the shifter

LSR, ASR and ROR shift by the local `shift_imm`, which only LSL assigns. RRX takes bit 29 of
bit 16 of the word for the carry flag, that is 0. With the amount of the word in `shift_imm`
every form but RRX with the carry set is right (`shifterResult_assigned`); as it is, the law
holds of LSL, and of RRX with the carry clear (`immediateShiftLaw_iff`).
-/

namespace Armator

open Arch

/-- A flag as a word. -/
def flagWord (b : Bool) : BitVec 32 := (BitVec.ofBool b).setWidth 32

/-- The operand and the carry-out of the shift the word asks for, for the value `m` of Rm. -/
def shiftDue (w m : BitVec 32) (carry : Bool) : BitVec 32 × BitVec 32 :=
  (immediateShift (shiftKind w) (shiftAmount w) carry m,
    flagWord (shiftCarry (shiftKind w) (shiftAmount w) carry m))

/-- Whatever is indeterminate or undefined, `shiftedRegisterOperand` returns the operand and
the carry-out of the architecture. -/
def ImmediateShiftLaw (w : BitVec 32) (c : ArmCore) : Prop :=
  ∀ (h : Host) (u : Locals),
    (shiftedRegisterOperand h u w c).value = shiftDue w (c.regValue (rm w)) c.flags.c

section

variable (h : Host) (m : BitVec 32) (carry : Bool) {w : BitVec 32}

theorem getBitAt_eq {i : Nat} (hi : i < 32) : getBitAt h m i = flagWord (m.getLsbD i) := by
  rw [getBitAt, cShr, if_pos (by omega), Int.toNat_natCast]
  exact getBit_eq_ofBool m i

/-! ## Shifts by an amount from 1 to 31 -/

variable {k : Nat} (hk : 0 < k ∧ k < 32)

include hk

theorem amount_toNat : (BitVec.ofNat 32 k).toNat = k := by
  rw [BitVec.toNat_ofNat]
  omega

theorem amount_ne_zero : BitVec.ofNat 32 k ≠ 0 := by
  intro hzero
  have hnat := congrArg BitVec.toNat hzero
  rw [amount_toNat hk] at hnat
  exact absurd hnat (Nat.ne_of_gt hk.1)

theorem amount_byte : ((BitVec.ofNat 32 k).setWidth 8).toNat = k := by
  rw [BitVec.toNat_setWidth, amount_toNat hk]
  omega

theorem lastRight_eq :
    getBitAt h m (BitVec.ofNat 32 k - 1).toNat = flagWord (m.getLsbD (k - 1)) := by
  have hpred : (BitVec.ofNat 32 k - 1).toNat = k - 1 := by
    rw [BitVec.toNat_sub, amount_toNat hk, show (1 : BitVec 32).toNat = 1 from rfl]
    omega
  rw [hpred]
  exact getBitAt_eq h m (by omega)

theorem lastLeft_eq :
    getBitAt h m (32 - BitVec.ofNat 32 k).toNat = flagWord (m.getLsbD (32 - k)) := by
  have hrest : (32 - BitVec.ofNat 32 k).toNat = 32 - k := by
    rw [BitVec.toNat_sub, amount_toNat hk, show (32 : BitVec 32).toNat = 32 from rfl]
    omega
  rw [hrest]
  exact getBitAt_eq h m (by omega)

theorem logicalShift_left : logicalShift h m (BitVec.ofNat 32 k) 'l' = m <<< k := by
  rw [logicalShift, if_neg (by decide), if_pos rfl, amount_toNat hk, cShl, if_pos (by omega),
    Int.toNat_natCast]

theorem logicalShift_right : logicalShift h m (BitVec.ofNat 32 k) 'r' = m >>> k := by
  rw [logicalShift, if_pos rfl, amount_toNat hk, cShr, if_pos (by omega), Int.toNat_natCast]

omit hk

/-! ## The arms of the decoder -/

/-- With bit 4 clear the three bits that select the arm are the kind of the shift. -/
theorem shiftSelect_eq (h4 : w.getLsbD 4 = false) : (getBits w 6 4).toNat = 2 * field w 6 5 := by
  rw [getBits_toNat_field w (by decide)]
  have hbit : ¬ w.toNat / 2 ^ 4 % 2 = 1 := by
    rw [← BitVec.testBit_toNat, Nat.testBit_eq_decide_div_mod_eq] at h4
    exact of_decide_eq_false h4
  simp only [field]
  omega

theorem bits7_11_eq_zero : getBits w 11 7 = 0 ↔ shiftAmount w = 0 := by
  rw [shiftAmount, ← getBits_toNat_field w (by decide), ← BitVec.toNat_inj]
  rfl

section

variable (h4 : w.getLsbD 4 = false) (shiftImm c : BitVec 32)

include h4

/-- LSL does not look at `shift_imm`. -/
theorem shifterResult_LSL (hkind : field w 6 5 = 0) :
    shifterResult h shiftImm w m c = if getBits w 11 7 = 0 then (m, c)
      else (logicalShift h m (getBits w 11 7) 'l', getBitAt h m (32 - getBits w 11 7).toNat) := by
  unfold shifterResult
  rw [shiftSelect_eq h4, hkind]
  rfl

theorem shifterResult_LSR (hkind : field w 6 5 = 1) :
    shifterResult h shiftImm w m c = if shiftImm = 0 then (0, getBit m 31)
      else (logicalShift h m shiftImm 'r', getBitAt h m (shiftImm - 1).toNat) := by
  unfold shifterResult
  rw [shiftSelect_eq h4, hkind]
  rfl

theorem shifterResult_ASR (hkind : field w 6 5 = 2) :
    shifterResult h shiftImm w m c =
      if shiftImm = 0 then (if getBit m 31 = 0 then 0 else 0xFFFFFFFF, getBit m 31)
      else (asr h m (shiftImm.setWidth 8), getBitAt h m (shiftImm - 1).toNat) := by
  unfold shifterResult
  rw [shiftSelect_eq h4, hkind]
  rfl

/-- RRX takes bit 29 of a single bit for the carry flag. -/
theorem shifterResult_ROR (hkind : field w 6 5 = 3) :
    shifterResult h shiftImm w m c =
      if getBits w 11 7 = 0 ∨ shiftImm = 0 then (m >>> 1, flagWord (m.getLsbD 0))
      else (ror h m (shiftImm.setWidth 8), getBitAt h m (shiftImm - 1).toNat) := by
  have hflag : getBit (getBit w 16) C = 0 := by
    rw [C, getBit_eq_zero, getBit_eq_ofBool]
    cases w.getLsbD 16 <;> decide
  have hval1 : logicalShift h 0 31 'l' = 0 := by
    rw [logicalShift, if_neg (by decide), if_pos rfl, cShl, if_pos (by decide)]
    rfl
  have hval2 : logicalShift h m 1 'r' = m >>> 1 := by
    rw [logicalShift, if_pos rfl, cShr, if_pos (by decide)]
    rfl
  have hvalue : logicalShift h (getBit (getBit w 16) C) 31 'l' ||| logicalShift h m 1 'r'
      = m >>> 1 := by
    rw [hflag, hval1, hval2]
    exact BitVec.zero_or
  have harm : shifterResult h shiftImm w m c =
      if getBits w 11 7 = 0 then (m >>> 1, getBit m 0)
      else if shiftImm = 0 then (m >>> 1, getBit m 0)
      else (ror h m (shiftImm.setWidth 8), getBitAt h m (shiftImm - 1).toNat) := by
    rw [← hvalue]
    unfold shifterResult
    rw [shiftSelect_eq h4, hkind]
    rfl
  rw [harm, show getBit m 0 = flagWord (m.getLsbD 0) from getBit_eq_ofBool m 0]
  by_cases h0 : getBits w 11 7 = 0
  · rw [if_pos h0, if_pos (.inl h0)]
  · rw [if_neg h0, if_congr (or_iff_right h0) rfl rfl]

end

theorem shiftKind_cases (w : BitVec 32) :
    field w 6 5 = 0 ∨ field w 6 5 = 1 ∨ field w 6 5 = 2 ∨ field w 6 5 = 3 := by
  have hlt : field w 6 5 < 4 := field_lt w 6 5
  omega

theorem shiftKind_LSL : shiftKind w = .LSL ↔ field w 6 5 = 0 := by
  rw [shiftKind]
  rcases shiftKind_cases w with hk | hk | hk | hk <;> rw [hk] <;> decide

theorem shiftKind_ROR : shiftKind w = .ROR ↔ field w 6 5 = 3 := by
  rw [shiftKind]
  rcases shiftKind_cases w with hk | hk | hk | hk <;> rw [hk] <;> decide

/-- ASR by 32 fills the word with its sign. -/
theorem sshiftRight_32 : m.sshiftRight 32 = if m.getLsbD 31 = false then 0 else 0xFFFFFFFF := by
  have hmsb : m.msb = m.getLsbD 31 := BitVec.msb_eq_getLsbD_last m
  have hones : (0xFFFFFFFF : BitVec 32) = BitVec.allOnes 32 := rfl
  apply BitVec.eq_of_getLsbD_eq
  intro i hi
  have hhigh : ¬ 32 + i < 32 := by omega
  rw [BitVec.getLsbD_sshiftRight, if_neg hhigh, hmsb]
  cases m.getLsbD 31 with
  | false => simp
  | true =>
      rw [if_neg (by decide), hones, BitVec.getLsbD_allOnes]
      simp [hi, Nat.not_le.mpr hi]

/-- The amount 0 stands for no shift, for 32, or for RRX. -/
theorem shifterResult_zero (h4 : w.getLsbD 4 = false) (h0 : shiftAmount w = 0)
    (hrrx : shiftKind w = .ROR → carry = false) :
    shifterResult h 0 w m (flagWord carry) = shiftDue w m carry := by
  have hfield : getBits w 11 7 = 0 := bits7_11_eq_zero.mpr h0
  have hsign : getBit m 31 = flagWord (m.getLsbD 31) := getBit_eq_ofBool m 31
  have hsign0 : getBit m 31 = 0 ↔ m.getLsbD 31 = false := getBit_eq_zero
  rcases shiftKind_cases w with hk | hk | hk | hk
  · rw [shifterResult_LSL h m h4 _ _ hk, if_pos hfield, shiftDue, shiftKind, hk, h0]
    simp [ShiftKind.ofField, immediateShift, shiftCarry]
  · rw [shifterResult_LSR h m h4 _ _ hk, if_pos rfl, shiftDue, shiftKind, hk, h0, hsign]
    simp [ShiftKind.ofField, immediateShift, shiftCarry]
  · rw [shifterResult_ASR h m h4 _ _ hk, if_pos rfl, shiftDue, shiftKind, hk, h0,
      if_congr hsign0 rfl rfl, ← sshiftRight_32, hsign]
    rfl
  · have hclear : carry = false := hrrx (shiftKind_ROR.mpr hk)
    rw [shifterResult_ROR h m h4 _ _ hk, if_pos (.inl hfield), shiftDue, shiftKind, hk, h0, hclear]
    simp [ShiftKind.ofField, immediateShift, shiftCarry]

theorem shifterResult_pos (h4 : w.getLsbD 4 = false) (hpos : 0 < shiftAmount w) :
    shifterResult h (getBits w 11 7) w m (flagWord carry) = shiftDue w m carry := by
  have hamount : 0 < shiftAmount w ∧ shiftAmount w < 32 := ⟨hpos, shiftAmount_lt w⟩
  have hne : shiftAmount w ≠ 0 := Nat.ne_of_gt hpos
  have hfield : getBits w 11 7 = BitVec.ofNat 32 (shiftAmount w) :=
    getBits_eq_ofNat w (by decide)
  have hfield0 := amount_ne_zero hamount
  have hbyte := amount_byte hamount
  rcases shiftKind_cases w with hk | hk | hk | hk
  · rw [shifterResult_LSL h m h4 _ _ hk, hfield, if_neg hfield0, shiftDue, shiftKind, hk,
      logicalShift_left h m hamount, lastLeft_eq h m hamount]
    simp [ShiftKind.ofField, immediateShift, shiftCarry, hne]
  · rw [shifterResult_LSR h m h4 _ _ hk, hfield, if_neg hfield0, shiftDue, shiftKind, hk,
      logicalShift_right h m hamount, lastRight_eq h m hamount]
    simp [ShiftKind.ofField, immediateShift, shiftCarry, hne]
  · rw [shifterResult_ASR h m h4 _ _ hk, hfield, if_neg hfield0, shiftDue, shiftKind, hk,
      asr_eq h m (by omega) (by omega), hbyte, lastRight_eq h m hamount]
    simp [ShiftKind.ofField, immediateShift, shiftCarry, hne]
  · rw [shifterResult_ROR h m h4 _ _ hk, hfield, if_neg (not_or.mpr ⟨hfield0, hfield0⟩),
      shiftDue, shiftKind, hk, ror_eq h m (by omega) (by omega), hbyte,
      lastRight_eq h m hamount]
    simp [ShiftKind.ofField, immediateShift, shiftCarry, hne]

/-- **With the amount in `shift_imm` every arm is right**, but for RRX with the carry set. -/
theorem shifterResult_assigned (h4 : w.getLsbD 4 = false)
    (hrrx : shiftKind w = .ROR → shiftAmount w = 0 → carry = false) :
    shifterResult h (getBits w 11 7) w m (flagWord carry) = shiftDue w m carry := by
  rcases Nat.eq_zero_or_pos (shiftAmount w) with h0 | hpos
  · rw [bits7_11_eq_zero.mpr h0]
    exact shifterResult_zero h m carry h4 h0 fun hk => hrrx hk h0
  · exact shifterResult_pos h m carry h4 hpos

end

/-! ## The law -/

section

variable {w : BitVec 32} {c : ArmCore}

theorem shiftedRegisterOperand_value (h : Host) (u : Locals) :
    (shiftedRegisterOperand h u w c).value
      = shifterResult h u.shiftImm w (c.regValue (rm w)) (flagWord c.flags.c) := by
  have hcarry : getBit c.cpsr C = flagWord c.flags.c := getBit_eq_ofBool c.cpsr 29
  rw [(shiftedRegisterOperand_runs h u w c).value, getBits_toNat_field w (by decide), hcarry, rm]

/-- A host that answers `x` to every undefined shift. -/
def Host.answering (x : BitVec 32) : Host := ⟨fun _ _ => x, fun _ _ => x⟩

/-- With 33 in `shift_imm` the carry-out of LSR, ASR and ROR is what the host makes of a shift
by 32. -/
theorem carryOut_33 (h4 : w.getLsbD 4 = false) (hlsl : shiftKind w ≠ .LSL)
    (hrrx : ¬ (shiftKind w = .ROR ∧ shiftAmount w = 0)) (x m c : BitVec 32) :
    (shifterResult (Host.answering x) 33 w m c).2 = x &&& 1 := by
  have hlast : getBitAt (Host.answering x) m ((33 : BitVec 32) - 1).toNat = x &&& 1 := rfl
  have hne : ¬ (33 : BitVec 32) = 0 := by decide
  rcases shiftKind_cases w with hk | hk | hk | hk
  · exact absurd (shiftKind_LSL.mpr hk) hlsl
  · rw [shifterResult_LSR _ m h4 _ _ hk, if_neg hne, hlast]
  · rw [shifterResult_ASR _ m h4 _ _ hk, if_neg hne, hlast]
  · have hamount : getBits w 11 7 ≠ 0 := fun hzero =>
      hrrx ⟨shiftKind_ROR.mpr hk, bits7_11_eq_zero.mp hzero⟩
    rw [shifterResult_ROR _ m h4 _ _ hk, if_neg (not_or.mpr ⟨hamount, hne⟩), hlast]

/-- LSL and RRX do not look at `shift_imm`. -/
theorem shifterResult_shiftImm (h4 : w.getLsbD 4 = false)
    (hkind : shiftKind w = .LSL ∨ shiftKind w = .ROR ∧ shiftAmount w = 0) (h : Host)
    (shiftImm shiftImm' m c : BitVec 32) :
    shifterResult h shiftImm w m c = shifterResult h shiftImm' w m c := by
  rcases hkind with hlsl | ⟨hror, h0⟩
  · have hk : field w 6 5 = 0 := shiftKind_LSL.mp hlsl
    rw [shifterResult_LSL h m h4 _ _ hk, shifterResult_LSL h m h4 _ _ hk]
  · have hk : field w 6 5 = 3 := shiftKind_ROR.mp hror
    have hfield : getBits w 11 7 = 0 := bits7_11_eq_zero.mpr h0
    rw [shifterResult_ROR h m h4 _ _ hk, if_pos (.inl hfield), shifterResult_ROR h m h4 _ _ hk,
      if_pos (.inl hfield)]

/-- The operand RRX returns has bit 31 clear, the operand it should return has the carry there. -/
theorem rrx_carry (h4 : w.getLsbD 4 = false) (hror : shiftKind w = .ROR) (h0 : shiftAmount w = 0)
    (h : Host) (shiftImm m : BitVec 32) (carry : Bool)
    (hvalue : (shifterResult h shiftImm w m (flagWord carry)).1 = (shiftDue w m carry).1) :
    carry = false := by
  have hfield : getBits w 11 7 = 0 := bits7_11_eq_zero.mpr h0
  rw [shifterResult_ROR h m h4 _ _ (shiftKind_ROR.mp hror), if_pos (.inl hfield), shiftDue, hror,
    h0] at hvalue
  have hbit := congrArg (fun x => BitVec.getLsbD x 31) hvalue
  simpa [immediateShift] using hbit

/-- **The shifter follows the architecture exactly for LSL, and for RRX with the carry clear.** -/
theorem immediateShiftLaw_iff (c : ArmCore) (h4 : w.getLsbD 4 = false) :
    ImmediateShiftLaw w c ↔
      shiftKind w = .LSL ∨ shiftKind w = .ROR ∧ shiftAmount w = 0 ∧ c.flags.c = false := by
  constructor
  · intro hlaw
    by_cases hlsl : shiftKind w = .LSL
    · exact .inl hlsl
    · by_cases hrrx : shiftKind w = .ROR ∧ shiftAmount w = 0
      · have hvalue := congrArg Prod.fst (hlaw Host.masked ⟨0, 0, 0, 0, 0, 0⟩)
        rw [shiftedRegisterOperand_value] at hvalue
        exact .inr ⟨hrrx.1, hrrx.2, rrx_carry h4 hrrx.1 hrrx.2 _ _ _ _ hvalue⟩
      · -- a host for which the undefined shift answers the wrong carry
        exfalso
        have hcarry (x : BitVec 32) : x &&& 1 = (shiftDue w (c.regValue (rm w)) c.flags.c).2 := by
          have hlaw33 := congrArg Prod.snd (hlaw (.answering x) ⟨0, 33, 0, 0, 0, 0⟩)
          rwa [shiftedRegisterOperand_value, carryOut_33 h4 hlsl hrrx] at hlaw33
        have hsame : (0 : BitVec 32) &&& 1 = 1 &&& 1 := (hcarry 0).trans (hcarry 1).symm
        exact absurd hsame (by decide)
  · rintro hcases h u
    have hkind : shiftKind w = .LSL ∨ shiftKind w = .ROR ∧ shiftAmount w = 0 := by
      rcases hcases with hlsl | ⟨hror, h0, -⟩
      · exact .inl hlsl
      · exact .inr ⟨hror, h0⟩
    have hclear : shiftKind w = .ROR → shiftAmount w = 0 → c.flags.c = false := by
      rintro hror -
      rcases hcases with hlsl | ⟨-, -, hflag⟩
      · rw [hror] at hlsl
        cases hlsl
      · exact hflag
    rw [shiftedRegisterOperand_value, shifterResult_shiftImm h4 hkind h _ (getBits w 11 7)]
    exact shifterResult_assigned h _ _ h4 hclear

/-- `ADD r0, r1, r2, LSL #3`. -/
theorem immediateShiftLaw_iff_lsl :
    ImmediateShiftLaw 0xE0810182 (executing 0xE0810182 fun _ => 1) ↔
      shiftKind 0xE0810182 = .LSL ∨ shiftKind 0xE0810182 = .ROR ∧ shiftAmount 0xE0810182 = 0 ∧
        (executing 0xE0810182 fun _ => 1).flags.c = false :=
  immediateShiftLaw_iff _ (by decide)

/-- `ADD r0, r1, r2, LSR #1` with 0 in `shift_imm` adds 0. -/
theorem not_immediateShiftLaw_lsr :
    ¬ ImmediateShiftLaw 0xE08100A2 (executing 0xE08100A2 fun _ => 2) := by
  intro hlaw
  have hvalue := congrArg Prod.fst (hlaw Host.masked ⟨1, 0, 0, 0, 0, 0⟩)
  exact absurd hvalue (by decide)

end

end Armator
