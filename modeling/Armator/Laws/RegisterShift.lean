import Armator.Laws.Shifter

set_option autoImplicit false

/-! # Shifts by a register

The four arms of `shiftedRegisterOperand` for a shift by a register are right for every amount
(`registerShiftBranch_eq`), but the amount they are given is the number of Rs, not its contents
(`registerShiftLaw_iff`).
-/

namespace Armator

open Arch

/-- The arms for a shift by a register, with `rs_bits_0_7` and `rs_bits_0_4` as parameters. -/
def registerShiftBranch (h : Host) (kind : ShiftKind) (rsBits0_7 rsBits0_4 m carry : BitVec 32) :
    BitVec 32 × BitVec 32 :=
  match kind with
  | .LSL =>
    if rsBits0_7 = 0 then (m, carry)
    else if rsBits0_7 < 32 then
      (logicalShift h m rsBits0_7 'l', getBitAt h m (32 - rsBits0_7).toNat)
    else if rsBits0_7 = 32 then (0, getBit m 0)
    else (0, 0)
  | .LSR =>
    if rsBits0_7 = 0 then (m, carry)
    else if rsBits0_7 < 32 then
      (logicalShift h m rsBits0_7 'r', getBitAt h m (rsBits0_7 - 1).toNat)
    else if rsBits0_7 = 32 then (0, getBit m 31)
    else (0, 0)
  | .ASR =>
    if rsBits0_7 = 0 then (m, carry)
    else if rsBits0_7 < 32 then
      (asr h m (rsBits0_7.setWidth 8), getBitAt h m (rsBits0_7 - 1).toNat)
    else (if getBit m 31 = 0 then 0 else 0xFFFFFFFF, getBit m 31)
  | .ROR =>
    if rsBits0_7 = 0 then (m, carry)
    else if rsBits0_4 = 0 then (m, getBit m 31)
    else (ror h m (rsBits0_4.setWidth 8), getBitAt h m (rsBits0_4 - 1).toNat)

/-- With bit 4 set the three bits that select the arm are odd. -/
theorem registerSelect_eq {w : BitVec 32} (h4 : w.getLsbD 4 = true) :
    (getBits w 6 4).toNat = 2 * field w 6 5 + 1 := by
  rw [getBits_toNat_field w (by decide)]
  have hbit : w.toNat / 2 ^ 4 % 2 = 1 := by
    rw [← BitVec.testBit_toNat, Nat.testBit_eq_decide_div_mod_eq] at h4
    exact of_decide_eq_true h4
  simp only [field]
  omega

/-- The arms of the source, by their kind. -/
theorem shifterResult_register {w : BitVec 32} (h4 : w.getLsbD 4 = true) (h : Host)
    (shiftImm m c : BitVec 32) :
    shifterResult h shiftImm w m c = registerShiftBranch h (shiftKind w)
      (getBits (getBits w 11 8) 7 0) (getBits (getBits w 11 8) 4 0) m c := by
  unfold shifterResult shiftKind
  rw [registerSelect_eq h4]
  rcases shiftKind_cases w with hk | hk | hk | hk <;> rw [hk] <;> rfl

/-! ## The arms -/

section

variable (h : Host) (m : BitVec 32) (carry : Bool) {s : Nat}

/-- How the source compares an amount. -/
theorem amount_compare (hs : s < 256) :
    (BitVec.ofNat 32 s = 0 ↔ s = 0) ∧ (BitVec.ofNat 32 s < 32 ↔ s < 32) ∧
      (BitVec.ofNat 32 s = 32 ↔ s = 32) := by
  have hnat : (BitVec.ofNat 32 s).toNat = s := by
    rw [BitVec.toNat_ofNat]
    omega
  refine ⟨?_, ?_, ?_⟩
  · rw [← BitVec.toNat_inj, hnat]
    rfl
  · rw [BitVec.lt_def, hnat]
    rfl
  · rw [← BitVec.toNat_inj, hnat]
    rfl

/-- An operand and a carry-out as `shiftedRegisterOperand` returns them. -/
def shiftResult (x : BitVec 32 × Bool) : BitVec 32 × BitVec 32 := (x.1, flagWord x.2)

theorem registerShift_LSL (hs : s < 256) (s4 : BitVec 32) :
    registerShiftBranch h .LSL (BitVec.ofNat 32 s) s4 m (flagWord carry)
      = shiftResult (registerShift .LSL s carry m) := by
  obtain ⟨hzero, hlow, hwidth⟩ := amount_compare hs
  unfold registerShiftBranch registerShift
  cases s with
  | zero => exact if_pos rfl
  | succ k =>
      have hout : m.getMsbD k = (decide (k < 32) && m.getLsbD (32 - (k + 1))) := by
        rw [BitVec.getMsbD, Nat.sub_sub, Nat.add_comm 1]
      dsimp only
      rw [if_neg (mt hzero.mp (Nat.succ_ne_zero k)), shiftOnce, BitShift.left_iterate, shiftResult]
      dsimp only
      rw [hout]
      -- the arms of the source: below the width, at it, above it
      rcases Nat.lt_trichotomy (k + 1) 32 with hlt | heq | hgt
      · have hamount : 0 < k + 1 ∧ k + 1 < 32 := ⟨Nat.succ_pos k, hlt⟩
        rw [if_pos (hlow.mpr hlt), logicalShift_left h m hamount, lastLeft_eq h m hamount,
          decide_eq_true (show k < 32 by omega), Bool.true_and]
      · rw [if_neg (mt hlow.mp (by omega)), if_pos (hwidth.mpr heq), heq,
          decide_eq_true (show k < 32 by omega), Bool.true_and,
          BitVec.shiftLeft_eq_zero (by decide)]
        exact congrArg (Prod.mk 0) (getBit_eq_ofBool m 0)
      · rw [if_neg (mt hlow.mp (by omega)), if_neg (mt hwidth.mp (by omega)),
          decide_eq_false (show ¬ k < 32 by omega), Bool.false_and,
          BitVec.shiftLeft_eq_zero (by omega)]
        rfl

theorem registerShift_LSR (hs : s < 256) (s4 : BitVec 32) :
    registerShiftBranch h .LSR (BitVec.ofNat 32 s) s4 m (flagWord carry)
      = shiftResult (registerShift .LSR s carry m) := by
  obtain ⟨hzero, hlow, hwidth⟩ := amount_compare hs
  unfold registerShiftBranch registerShift
  cases s with
  | zero => exact if_pos rfl
  | succ k =>
      dsimp only
      rw [if_neg (mt hzero.mp (Nat.succ_ne_zero k)), shiftOnce, BitShift.right_iterate, shiftResult]
      dsimp only
      rcases Nat.lt_trichotomy (k + 1) 32 with hlt | heq | hgt
      · have hamount : 0 < k + 1 ∧ k + 1 < 32 := ⟨Nat.succ_pos k, hlt⟩
        rw [if_pos (hlow.mpr hlt), logicalShift_right h m hamount, lastRight_eq h m hamount,
          Nat.add_sub_cancel]
      · rw [if_neg (mt hlow.mp (by omega)), if_pos (hwidth.mpr heq), heq,
          BitVec.ushiftRight_eq_zero (by decide), show k = 31 by omega]
        exact congrArg (Prod.mk 0) (getBit_eq_ofBool m 31)
      · rw [if_neg (mt hlow.mp (by omega)), if_neg (mt hwidth.mp (by omega)),
          BitVec.ushiftRight_eq_zero (by omega), BitVec.getLsbD_of_ge m k (by omega)]
        rfl

/-- From 32 on ASR fills the word with its sign. -/
theorem sshiftRight_of_le (hs : 32 ≤ s) :
    m.sshiftRight s = if getBit m 31 = 0 then 0 else 0xFFFFFFFF := by
  have hwide : m.sshiftRight s = m.sshiftRight 32 := by
    apply BitVec.eq_of_getLsbD_eq
    intro i hi
    rw [BitVec.getLsbD_sshiftRight, BitVec.getLsbD_sshiftRight, if_neg (by omega),
      if_neg (by omega)]
  rw [hwide, sshiftRight_32, if_congr getBit_eq_zero rfl rfl]

theorem registerShift_ASR (hs : s < 256) (s4 : BitVec 32) :
    registerShiftBranch h .ASR (BitVec.ofNat 32 s) s4 m (flagWord carry)
      = shiftResult (registerShift .ASR s carry m) := by
  obtain ⟨hzero, hlow, -⟩ := amount_compare hs
  unfold registerShiftBranch registerShift
  cases s with
  | zero => exact if_pos rfl
  | succ k =>
      have hout : (m.sshiftRight k).getLsbD 0 = if k < 32 then m.getLsbD k else m.getLsbD 31 := by
        rw [BitVec.getLsbD_sshiftRight, Nat.add_zero, BitVec.msb_eq_getLsbD_last]
        rfl
      dsimp only
      rw [if_neg (mt hzero.mp (Nat.succ_ne_zero k)), shiftOnce, BitShift.signed_iterate,
        shiftResult]
      dsimp only
      rw [hout]
      by_cases hlt : k + 1 < 32
      · have hamount : 0 < k + 1 ∧ k + 1 < 32 := ⟨Nat.succ_pos k, hlt⟩
        have hbyte := amount_byte hamount
        rw [if_pos (hlow.mpr hlt), asr_eq h m (by omega) (by omega), hbyte,
          lastRight_eq h m hamount, Nat.add_sub_cancel, if_pos (by omega)]
      · -- from the width on the last bit shifted out is the sign
        have hlast : (if k < 32 then m.getLsbD k else m.getLsbD 31) = m.getLsbD 31 := by
          by_cases hk : k < 32
          · rw [if_pos hk, show k = 31 by omega]
          · rw [if_neg hk]
        rw [if_neg (mt hlow.mp hlt), sshiftRight_of_le m (by omega), hlast]
        exact congrArg (Prod.mk _) (getBit_eq_ofBool m 31)

theorem registerShift_ROR (hs : s < 256) :
    registerShiftBranch h .ROR (BitVec.ofNat 32 s) (BitVec.ofNat 32 (s % 32)) m (flagWord carry)
      = shiftResult (registerShift .ROR s carry m) := by
  obtain ⟨hzero, -, -⟩ := amount_compare hs
  obtain ⟨hturn, -, -⟩ := amount_compare (s := s % 32) (by omega)
  unfold registerShiftBranch registerShift
  cases s with
  | zero => exact if_pos rfl
  | succ k =>
      have hrotate : m.rotateRight (k + 1) = m.rotateRight ((k + 1) % 32) :=
        BitVec.rotateRight_mod_eq_rotateRight.symm
      dsimp only
      rw [if_neg (mt hzero.mp (Nat.succ_ne_zero k)), shiftOnce,
        BitShift.rotate_iterate k _ (by decide), shiftResult]
      dsimp only
      rw [hrotate]
      -- a rotation by a multiple of 32 has an arm of its own, a shift by 32 is not evaluated
      by_cases h0 : (k + 1) % 32 = 0
      · rw [if_pos (hturn.mpr h0), h0, BitShift.rotateRight_zero, show k % 32 = 31 by omega]
        exact congrArg (Prod.mk m) (getBit_eq_ofBool m 31)
      · have hamount : 0 < (k + 1) % 32 ∧ (k + 1) % 32 < 32 :=
          ⟨Nat.pos_of_ne_zero h0, Nat.mod_lt _ (by decide)⟩
        have hbyte := amount_byte hamount
        rw [if_neg (mt hturn.mp h0), ror_eq h m (by omega) (by omega), hbyte,
          lastRight_eq h m hamount, show (k + 1) % 32 - 1 = k % 32 by omega]

/-- **Every arm is the repetition of its shift by one bit.** -/
theorem registerShiftBranch_eq (kind : ShiftKind) (hs : s < 256) :
    registerShiftBranch h kind (BitVec.ofNat 32 s) (BitVec.ofNat 32 (s % 32)) m (flagWord carry)
      = shiftResult (registerShift kind s carry m) := by
  cases kind with
  | LSL => exact registerShift_LSL h m carry hs _
  | LSR => exact registerShift_LSR h m carry hs _
  | ASR => exact registerShift_ASR h m carry hs _
  | ROR => exact registerShift_ROR h m carry hs

end

/-! ## One bit at a time -/

/-- The shift of a word by one bit. -/
def oneBitShift : ShiftKind → BitVec 32 → BitVec 32
  | .LSL => (· <<< 1)
  | .LSR => (· >>> 1)
  | .ASR => (BitVec.sshiftRight · 1)
  | .ROR => (BitVec.rotateRight · 1)

/-- The bit that a shift by one bit moves out of a word. -/
def droppedBit : ShiftKind → BitVec 32 → Bool
  | .LSL => BitVec.msb
  | _ => (BitVec.getLsbD · 0)

theorem shiftOnce_eq (kind : ShiftKind) :
    shiftOnce kind = BitShift.once (oneBitShift kind) (droppedBit kind) := by
  cases kind <;> rfl

theorem registerShift_succ (kind : ShiftKind) (k : Nat) (carry : Bool) (m : BitVec 32) :
    registerShift kind (k + 1) carry m
      = ((oneBitShift kind)^[k + 1] m, droppedBit kind ((oneBitShift kind)^[k] m)) := by
  rw [registerShift, shiftOnce_eq, BitShift.once_iterate]

/-- **An arm given the amount `s` shifts by one bit, `s` times.** The carry-out is the bit that
the last of the shifts drops. -/
theorem registerShiftBranch_iterate (h : Host) (kind : ShiftKind) (m : BitVec 32) (carry : Bool)
    {s : Nat} (hs : s < 256) :
    registerShiftBranch h kind (BitVec.ofNat 32 s) (BitVec.ofNat 32 (s % 32)) m (flagWord carry)
      = ((oneBitShift kind)^[s] m,
        flagWord (if s = 0 then carry else droppedBit kind ((oneBitShift kind)^[s - 1] m))) := by
  rw [registerShiftBranch_eq h m carry kind hs]
  cases s with
  | zero => rfl
  | succ k =>
      rw [registerShift_succ, if_neg (Nat.succ_ne_zero k)]
      rfl

/-- ASR by 40, beyond the width. -/
theorem registerShiftBranch_iterate_wide :
    registerShiftBranch Host.masked .ASR (BitVec.ofNat 32 40) (BitVec.ofNat 32 (40 % 32))
        0x80000000 (flagWord false)
      = ((oneBitShift .ASR)^[40] 0x80000000,
        flagWord (if 40 = 0 then false
          else droppedBit .ASR ((oneBitShift .ASR)^[40 - 1] 0x80000000))) :=
  registerShiftBranch_iterate (s := 40) Host.masked .ASR 0x80000000 false (by decide)

/-! ## The law -/

/-- What a shift by a register depends on. -/
structure ShiftInputs where
  kind : ShiftKind
  /-- the value of Rm -/
  value : BitVec 32
  /-- the low byte of the contents of Rs -/
  amount : Nat
  carry : Bool

def shiftInputs (w : BitVec 32) (c : ArmCore) : ShiftInputs :=
  ⟨shiftKind w, c.regValue (rm w), (c.regValue (rs w)).toNat % 256, c.flags.c⟩

/-- The operand and the carry-out after shifts by `n` bits. -/
def ShiftInputs.shifted (i : ShiftInputs) (n : Nat) : BitVec 32 × Bool :=
  registerShift i.kind n i.carry i.value

/-- For two words and states that agree on the inputs, whatever their registers are called: both
runs return the shift by the low byte of the contents of Rs. -/
def RegisterShiftLaw (w : BitVec 32) (c : ArmCore) (w' : BitVec 32) (c' : ArmCore) : Prop :=
  ∀ (h h' : Host) (u u' : Locals),
    (shiftedRegisterOperand h u w c).value
        = shiftResult ((shiftInputs w c).shifted (shiftInputs w c).amount) ∧
      (shiftedRegisterOperand h' u' w' c').value = (shiftedRegisterOperand h u w c).value

theorem rs_lt (w : BitVec 32) : rs w < 16 := field_lt w 11 8

theorem rsBits_eq (w : BitVec 32) :
    getBits (getBits w 11 8) 7 0 = BitVec.ofNat 32 (rs w) ∧
      getBits (getBits w 11 8) 4 0 = BitVec.ofNat 32 (rs w % 32) := by
  have hlt := rs_lt w
  have hnumber : (getBits w 11 8).toNat = rs w := getBits_toNat_field w (by decide)
  refine ⟨?_, ?_⟩
  · rw [getBits_eq_ofNat _ (by decide), field, hnumber, pow_zero, Nat.div_one,
      Nat.mod_eq_of_lt (by omega)]
  · rw [getBits_eq_ofNat _ (by decide), field, hnumber, pow_zero, Nat.div_one]
    rfl

/-- **The amount is the number of Rs.** -/
theorem shifterResult_rs {w : BitVec 32} (h4 : w.getLsbD 4 = true) (h : Host)
    (shiftImm m : BitVec 32) (carry : Bool) :
    shifterResult h shiftImm w m (flagWord carry)
      = shiftResult (registerShift (shiftKind w) (rs w) carry m) := by
  have hlt := rs_lt w
  obtain ⟨hbyte, hlow⟩ := rsBits_eq w
  rw [shifterResult_register h4, hbyte, hlow, registerShiftBranch_eq h _ _ _ (by omega)]

theorem shiftedRegisterOperand_register {w : BitVec 32} (h4 : w.getLsbD 4 = true) (h : Host)
    (u : Locals) (c : ArmCore) :
    (shiftedRegisterOperand h u w c).value = shiftResult ((shiftInputs w c).shifted (rs w)) := by
  rw [shiftedRegisterOperand_value, shifterResult_rs h4]
  rfl

theorem flagWord_injective : Function.Injective flagWord := by
  intro a b hab
  cases a <;> cases b <;> first | rfl | exact absurd hab (by decide)

theorem shiftResult_injective : Function.Injective shiftResult := by
  rintro ⟨x, a⟩ ⟨y, b⟩ hab
  obtain ⟨hvalue, hcarry⟩ := Prod.mk.inj hab
  exact Prod.ext hvalue (flagWord_injective hcarry)

/-- **Shifts by a register are right exactly where the numbers of Rs shift like the low byte of
its contents.** -/
theorem registerShiftLaw_iff {w w' : BitVec 32} {c c' : ArmCore} (h4 : w.getLsbD 4 = true)
    (h4' : w'.getLsbD 4 = true) (hsame : shiftInputs w' c' = shiftInputs w c) :
    RegisterShiftLaw w c w' c' ↔
      (shiftInputs w c).shifted (rs w) = (shiftInputs w c).shifted (shiftInputs w c).amount ∧
        (shiftInputs w c).shifted (rs w') = (shiftInputs w c).shifted (shiftInputs w c).amount := by
  have hrun (h : Host) (u : Locals) := shiftedRegisterOperand_register h4 h u c
  have hrun' (h : Host) (u : Locals) := shiftedRegisterOperand_register h4' h u c'
  simp only [hsame] at hrun'
  constructor
  · intro hlaw
    obtain ⟨hdue, hagree⟩ := hlaw Host.masked Host.masked ⟨0, 0, 0, 0, 0, 0⟩ ⟨0, 0, 0, 0, 0, 0⟩
    rw [hagree.symm.trans (hrun' _ _)] at hdue
    rw [hrun', hrun] at hagree
    have hnumbers := shiftResult_injective hagree
    have hcontents := shiftResult_injective hdue
    exact ⟨hnumbers.symm.trans hcontents, hcontents⟩
  · rintro ⟨hnumber, hnumber'⟩ h h' u u'
    rw [hrun, hrun', hnumber, hnumber']
    exact ⟨rfl, rfl⟩

/-- `ADD r0, r1, r2, LSL r3` and `ADD r0, r1, r2, LSL r4`, with 3 in `r3` and `r4`. -/
theorem registerShiftLaw_iff_lsl :
    let c := executing 0xE0810312 fun r => if r = 2 then 1 else 3
    let i := shiftInputs 0xE0810312 c
    RegisterShiftLaw 0xE0810312 c 0xE0810412 c ↔
      i.shifted (rs 0xE0810312) = i.shifted i.amount ∧
        i.shifted (rs 0xE0810412) = i.shifted i.amount :=
  registerShiftLaw_iff (by decide) (by decide) rfl

/-- `ADD r0, r1, r2, LSL r3` with 1 in `r2` and `r3` adds 8, not 2. -/
theorem not_registerShiftLaw_lsl :
    let c := executing 0xE0810312 fun _ => 1
    ¬ RegisterShiftLaw 0xE0810312 c 0xE0810312 c := by
  intro c hlaw
  have hrun := (hlaw Host.masked Host.masked ⟨0, 0, 0, 0, 0, 0⟩ ⟨0, 0, 0, 0, 0, 0⟩).1
  exact absurd hrun (by decide)

end Armator
