import Armator.Instr.Shifts
import Armator.Laws.Address
import Armator.Laws.LoadStore
import Armator.Laws.RegisterShift

set_option autoImplicit false

/-! # Shift amounts

Which steps shift by the full width of a word, or by more (`shiftAmountsLaw_iff`)? A step that
does not ends in the same state on all hosts (`armStep_host`).
-/

namespace Armator

open Arch CShift

/-- Every shift of the step has an amount from 0 on and below the width of its operand. -/
def ShiftAmountsLaw (h : Host) (u : Locals) (c : ArmCore) : Prop :=
  ∀ s ∈ armStepShifts h u c, 0 ≤ s.amount ∧ s.amount < s.width

/-! ## The condition -/

/-- LSR, ASR or ROR by an immediate: `shift_imm`, which is not assigned, is the amount. -/
def UsesShiftImm (w : BitVec 32) : Prop :=
  w.getLsbD 4 = false ∧ shiftKind w ≠ .LSL ∧ ¬ (shiftKind w = .ROR ∧ shiftAmount w = 0)

/-- The opcodes that call `update_flag`. -/
def UpdatesFlags (k : Nat) : Prop := k ≤ 7 ∨ k = 12 ∨ k = 14

/-- The data-processing words whose amounts stay below 32. -/
structure DataProcessingStays (u : Locals) (w cpsr : BitVec 32) : Prop where
  /-- `ror` of an immediate is not by 0. -/
  rotation : w.getLsbD 25 = true → field w 11 8 ≠ 0
  shift : w.getLsbD 25 = false → u.bits4_11 ≠ 0 → UsesShiftImm w → u.shiftImm.toNat < 32
  /-- CMP and CMN take bits 63 to 32 of their result. -/
  compare : opcode w ≠ 10 ∧ opcode w ≠ 11
  /-- So does `update_flag`, if bit 20 of the CPSR is set. -/
  flags : UpdatesFlags (opcode w) → cpsr.getLsbD 20 = false

/-- The words whose amounts stay below the width: an LDR must not be aligned. -/
def ShiftsStay (u : Locals) (w : BitVec 32) (c : ArmCore) : Prop :=
  match classOf w with
  | .dataProcessing => DataProcessingStays u w c.cpsr
  | .loadStore =>
    w.getLsbD 20 = true → w.getLsbD 22 = false → (fieldAddress w).toNat % 4 ≠ 0
  | _ => True

section

variable {w : BitVec 32}

theorem not_usesShiftImm (hk : field w 6 5 = 0) : ¬ UsesShiftImm w := by
  rintro ⟨-, hlsl, -⟩
  exact hlsl (shiftKind_LSL.mpr hk)

/-- LSR and ASR. -/
theorem usesShiftImm_right (h4 : w.getLsbD 4 = false) (hk : field w 6 5 = 1 ∨ field w 6 5 = 2) :
    UsesShiftImm w := by
  refine ⟨h4, fun hlsl => ?_, fun hrrx => ?_⟩
  · have hzero := shiftKind_LSL.mp hlsl
    omega
  · have hthree := shiftKind_ROR.mp hrrx.1
    omega

/-- ROR, except for RRX. -/
theorem usesShiftImm_rotate (h4 : w.getLsbD 4 = false) (hk : field w 6 5 = 3) :
    UsesShiftImm w ↔ shiftAmount w ≠ 0 := by
  have hror : shiftKind w = .ROR := shiftKind_ROR.mpr hk
  constructor
  · rintro ⟨-, -, hrrx⟩ h0
    exact hrrx ⟨hror, h0⟩
  · intro hne
    refine ⟨h4, ?_, fun hrrx => hne hrrx.2⟩
    rw [hror]
    decide

end

/-! ## Amounts -/

/-- The amount of a shift by an immediate. -/
theorem amountBits_lt (w : BitVec 32) : (getBits w 11 7).toNat < 32 := by
  rw [getBits_toNat_field w (by decide)]
  exact field_lt w 11 7

/-- An amount, as the `uint8_t` that `asr` and `ror` take. -/
theorem amountByte_toNat (x : BitVec 32) : (x.setWidth 8).toNat = x.toNat % 256 :=
  BitVec.toNat_setWidth ..

theorem amountByte_of_lt {x : BitVec 32} (hlt : x.toNat < 32) :
    (x.setWidth 8).toNat = x.toNat := by
  rw [amountByte_toNat]
  omega

theorem getBitShifts_defined {i : Int} : Defined (getBitShifts 32 i) ↔ 0 ≤ i ∧ i < 32 := by
  rw [getBitShifts, defined_singleton, inRange_mk]
  rfl

theorem rorShifts_defined {r : BitVec 8} :
    Defined (rorShifts r) ↔ 0 < r.toNat ∧ r.toNat < 32 := by
  rw [rorShifts, defined_cons, defined_singleton, inRange_mk, inRange_mk]
  omega

theorem asrShifts_defined {m : BitVec 32} {s : BitVec 8} (h0 : 0 < s.toNat) :
    Defined (asrShifts m s) ↔ s.toNat < 32 := by
  rw [asrShifts, defined_append, defined_append, defined_singleton, getBitShifts_defined,
    defined_ite, defined_singleton, inRange_mk, inRange_mk]
  constructor
  · rintro ⟨⟨hshift, -⟩, -⟩
    omega
  · intro hlt
    exact ⟨⟨by omega, by omega⟩, fun _ => by omega, fun _ => defined_nil⟩

section

variable {x : BitVec 32}

theorem logicalShiftShifts_defined {direction : Char} (hd : direction = 'l' ∨ direction = 'r') :
    Defined (logicalShiftShifts x direction) ↔ x.toNat < 32 := by
  have hone : Defined [⟨32, x.toNat⟩] ↔ x.toNat < 32 := by
    rw [defined_singleton, inRange_mk]
    omega
  rcases hd with rfl | rfl
  · exact hone
  · exact hone

/-- The amount before `shift`, as `get_bit` takes it. -/
theorem getBitShifts_pred (h0 : x ≠ 0) :
    Defined (getBitShifts 32 (x - 1).toNat) ↔ x.toNat ≤ 32 := by
  have hpos : 0 < x.toNat := BitVec.toNat_pos_of_ne_zero h0
  have hlt := x.isLt
  rw [getBitShifts_defined, BitVec.toNat_sub, show (1 : BitVec 32).toNat = 1 from rfl]
  omega

/-! ## The arms of the shifter -/

/-- The arm of LSR by an immediate, and of the shifts to the right by a register. -/
theorem shiftRight_defined (h0 : x ≠ 0) :
    Defined (logicalShiftShifts x 'r' ++ getBitShifts 32 (x - 1).toNat) ↔ x.toNat < 32 := by
  rw [defined_append, logicalShiftShifts_defined (.inr rfl), getBitShifts_pred h0]
  omega

theorem shiftSigned_defined (h0 : x ≠ 0) (m : BitVec 32) :
    Defined (asrShifts m (x.setWidth 8) ++ getBitShifts 32 (x - 1).toNat) ↔ x.toNat < 32 := by
  have hpos : 0 < x.toNat := BitVec.toNat_pos_of_ne_zero h0
  have hbyte := amountByte_toNat x
  rw [defined_append, getBitShifts_pred h0]
  constructor
  · rintro ⟨hshift, hle⟩
    rw [asrShifts_defined (by omega), hbyte] at hshift
    omega
  · intro hlt
    rw [asrShifts_defined (by omega), hbyte]
    omega

theorem shiftRotate_defined (h0 : x ≠ 0) :
    Defined (rorShifts (x.setWidth 8) ++ getBitShifts 32 (x - 1).toNat) ↔ x.toNat < 32 := by
  have hpos : 0 < x.toNat := BitVec.toNat_pos_of_ne_zero h0
  have hbyte := amountByte_toNat x
  rw [defined_append, rorShifts_defined, getBitShifts_pred h0, hbyte]
  omega

theorem shiftLeft_defined (h0 : x ≠ 0) (hlt : x.toNat < 32) :
    Defined (logicalShiftShifts x 'l' ++ getBitShifts 32 (32 - x).toNat) := by
  have hpos : 0 < x.toNat := BitVec.toNat_pos_of_ne_zero h0
  rw [defined_append, logicalShiftShifts_defined (.inl rfl), getBitShifts_defined,
    BitVec.toNat_sub, show (32 : BitVec 32).toNat = 32 from rfl]
  omega

end

/-- Where a shift depends on a local only, the arms that do not use it are defined. -/
theorem ite_zero_defined {x : BitVec 32} {shifts shifts' : List CShift} {p : Prop}
    (hzero : Defined shifts) (hpos : x ≠ 0 → (Defined shifts' ↔ p)) (hp : x = 0 → p) :
    Defined (if x = 0 then shifts else shifts') ↔ p := by
  rw [defined_ite]
  constructor
  · rintro ⟨-, helse⟩
    by_cases h0 : x = 0
    · exact hp h0
    · exact (hpos h0).mp (helse h0)
  · intro hholds
    exact ⟨fun _ => hzero, fun h0 => (hpos h0).mpr hholds⟩

section

variable {w : BitVec 32} (u : Locals) (m : BitVec 32)

/-- By an immediate, only the indeterminate amount can be too large. -/
theorem shiftedRegisterOperandShifts_immediate (h4 : w.getLsbD 4 = false) :
    Defined (shiftedRegisterOperandShifts u w m) ↔ (UsesShiftImm w → u.shiftImm.toNat < 32) := by
  have hzero : u.shiftImm = 0 → u.shiftImm.toNat < 32 := fun h0 => by
    rw [h0]
    decide
  unfold shiftedRegisterOperandShifts
  refine (Defined.append_iff (by decide)).trans ?_
  rw [shiftSelect_eq h4]
  rcases shiftKind_cases w with hk | hk | hk | hk
  · -- LSL is the one arm that assigns `shift_imm`
    rw [hk]
    have hdefault : Defined (getBitsShifts 32 11 7) := by decide
    refine iff_of_true (hdefault.append_iff.mpr (.ite (fun _ => by decide) fun h0 => ?_)) ?_
    · exact shiftLeft_defined h0 (amountBits_lt w)
    · exact fun huses => absurd huses (not_usesShiftImm hk)
  · have huses := usesShiftImm_right h4 (.inl hk)
    rw [hk, forall_prop_of_true huses]
    exact ite_zero_defined (by decide) shiftRight_defined hzero
  · have huses := usesShiftImm_right h4 (.inr hk)
    rw [hk, forall_prop_of_true huses]
    exact ite_zero_defined (by decide) (fun h0 => shiftSigned_defined h0 m) hzero
  · rw [hk, usesShiftImm_rotate h4 hk]
    refine (Defined.append_iff (by decide)).trans ?_
    rw [defined_ite, bits7_11_eq_zero]
    have hrotate : Defined (if u.shiftImm = 0 then getBitShifts 32 0 else
        rorShifts (u.shiftImm.setWidth 8) ++ getBitShifts 32 (u.shiftImm - 1).toNat) ↔
        u.shiftImm.toNat < 32 := ite_zero_defined (by decide) shiftRotate_defined hzero
    constructor
    · rintro ⟨-, helse⟩ hne
      exact hrotate.mp (helse hne)
    · intro hdue
      exact ⟨fun _ => by decide, fun hne => hrotate.mpr (hdue hne)⟩

/-- By a register, the amount is the number of the register. -/
theorem shiftedRegisterOperandShifts_register (h4 : w.getLsbD 4 = true) :
    Defined (shiftedRegisterOperandShifts u w m) := by
  obtain ⟨hbyte, hlow⟩ := rsBits_eq w
  have hlt := rs_lt w
  have hamount : (getBits (getBits w 11 8) 7 0).toNat < 32 := by
    rw [hbyte, BitVec.toNat_ofNat]
    omega
  have hturn : (getBits (getBits w 11 8) 4 0).toNat < 32 := by
    rw [hlow, BitVec.toNat_ofNat]
    omega
  unfold shiftedRegisterOperandShifts
  refine (Defined.append_iff (by decide)).mpr ?_
  rw [registerSelect_eq h4]
  rcases shiftKind_cases w with hk | hk | hk | hk
  · rw [hk]
    refine .ite (fun _ => by decide) fun h0 => .ite (fun _ => shiftLeft_defined h0 hamount) fun _ =>
      .ite (fun _ => by decide) fun _ => by decide
  · rw [hk]
    refine .ite (fun _ => by decide) fun h0 =>
      .ite (fun _ => (shiftRight_defined h0).mpr hamount) fun _ =>
        .ite (fun _ => by decide) fun _ => by decide
  · rw [hk]
    refine .ite (fun _ => by decide) fun h0 =>
      .ite (fun _ => (shiftSigned_defined h0 m).mpr hamount) fun _ => by decide
  · rw [hk]
    refine .ite (fun _ => by decide) fun _ =>
      .ite (fun _ => by decide) fun h0 => (shiftRotate_defined h0).mpr hturn

/-- The operand of the immediate form is rotated by twice its four bit amount. -/
theorem immediateRotation_toNat (w : BitVec 32) :
    ((getBits w 11 8 * 2).setWidth 8).toNat = 2 * field w 11 8 := by
  have hlt : field w 11 8 < 16 := field_lt w 11 8
  rw [BitVec.toNat_setWidth, BitVec.toNat_mul, getBits_toNat_field w (by decide),
    show (2 : BitVec 32).toNat = 2 from rfl]
  omega

theorem dataProcessingOperandShifts_defined (c : ArmCore) :
    Defined (dataProcessingOperandShifts u w c) ↔
      (w.getLsbD 25 = true → field w 11 8 ≠ 0) ∧
        (w.getLsbD 25 = false → u.bits4_11 ≠ 0 → UsesShiftImm w → u.shiftImm.toNat < 32) := by
  unfold dataProcessingOperandShifts
  rw [defined_ite, getBit_eq_zero, Bool.not_eq_false, defined_ite]
  have himmediate : Defined (getBitsShifts 32 11 8 ++ getBitsShifts 32 7 0 ++
      rorShifts ((getBits w 11 8 * 2).setWidth 8) ++
        if getBits w 11 8 = 0 then getBitShifts 32 C else getBitShifts 32 31) ↔
      field w 11 8 ≠ 0 := by
    have hlt : field w 11 8 < 16 := field_lt w 11 8
    have hfront : Defined (getBitsShifts 32 11 8 ++ getBitsShifts 32 7 0) := by decide
    have hcarry : Defined (if getBits w 11 8 = 0 then getBitShifts 32 C else getBitShifts 32 31) :=
      .ite (fun _ => by decide) fun _ => by decide
    rw [defined_append, hfront.append_iff, rorShifts_defined, immediateRotation_toNat]
    constructor
    · rintro ⟨hrotation, -⟩
      omega
    · intro hne
      exact ⟨by omega, hcarry⟩
  have hshifted : Defined (shiftedRegisterOperandShifts u w (c.regValue (getBits w 3 0).toNat)) ↔
      (UsesShiftImm w → u.shiftImm.toNat < 32) := by
    cases h4 : w.getLsbD 4 with
    | false => exact shiftedRegisterOperandShifts_immediate u _ h4
    | true =>
        refine iff_of_true (shiftedRegisterOperandShifts_register u _ h4) fun huses => ?_
        rw [huses.1] at h4
        cases h4
  constructor
  · rintro ⟨hregister, himm⟩
    exact ⟨fun h25 => himmediate.mp (himm h25), fun h25 h0 => hshifted.mp ((hregister h25).2 h0)⟩
  · rintro ⟨himm, hregister⟩
    exact ⟨fun h25 => ⟨fun _ => by decide, fun h0 => hshifted.mpr (hregister h25 h0)⟩,
      fun h25 => himmediate.mpr (himm h25)⟩

end

/-! ## Flags and opcodes -/

section

variable (h : Host) (flag : BitVec 32)

/-- `get_bits(x, 63, 32)` takes an `int` by 32. -/
theorem wideBits_undefined (shifts : List CShift) :
    ¬ Defined (getBitsShifts 64 63 32 ++ shifts) := by
  intro hdefined
  exact absurd (defined_append.mp hdefined).1 (by decide)

theorem updateFlagShifts_defined (result : BitVec 64) :
    Defined (updateFlagShifts h flag result) ↔ flag.getLsbD 20 = false := by
  unfold updateFlagShifts
  refine (Defined.append_iff (by decide)).trans ?_
  rw [defined_ite, getBit_eq_one, Bool.not_eq_true]
  constructor
  · rintro ⟨hset, -⟩
    by_contra h20
    have hall := hset (Bool.eq_true_of_not_eq_false h20)
    exact wideBits_undefined _ (defined_append.mp (defined_append.mp hall).2).2
  · intro h20
    refine ⟨fun hset => ?_, fun _ => defined_nil⟩
    rw [h20] at hset
    cases hset

theorem dataProcessingShifts_defined (opcode n m : BitVec 32) :
    Defined (dataProcessingShifts h flag opcode n m) ↔
      (opcode.toNat ≠ 10 ∧ opcode.toNat ≠ 11) ∧
        (UpdatesFlags opcode.toNat → flag.getLsbD 20 = false) := by
  have hflags (result : BitVec 64) := updateFlagShifts_defined h flag result
  have hadc (result : BitVec 64) :
      Defined (getBitShifts 32 C ++ updateFlagShifts h flag result) ↔ flag.getLsbD 20 = false :=
    (Defined.append_iff (by decide)).trans (hflags result)
  have htest : Defined (updateFlagAtShifts Z ++ getBitShifts 64 31 ++ updateFlagAtShifts N ++
      updateFlagAtShifts C) := by decide
  have hcompare (shifts : List CShift) : ¬ Defined (updateFlagAtShifts Z ++ getBitShifts 64 31 ++
      updateFlagAtShifts N ++ getBitsShifts 64 63 32 ++ shifts) := fun hdefined =>
    absurd (defined_append.mp hdefined).1 (by decide)
  unfold dataProcessingShifts UpdatesFlags
  generalize opcode.toNat = k
  have hupdates {p : Prop} (hk : k ≤ 7 ∨ k = 12 ∨ k = 14) (hp : p ↔ flag.getLsbD 20 = false) :
      p ↔ (k ≠ 10 ∧ k ≠ 11) ∧ ((k ≤ 7 ∨ k = 12 ∨ k = 14) → flag.getLsbD 20 = false) := by
    rw [hp]
    exact ⟨fun h20 => ⟨by omega, fun _ => h20⟩, fun hboth => hboth.2 hk⟩
  match k with
  | 0 | 1 | 2 | 3 | 4 | 12 | 14 => exact hupdates (by decide) (hflags _)
  -- the arms that read the carry flag first
  | 5 | 6 | 7 => exact hupdates (by decide) (hadc _)
  | 8 | 9 => exact iff_of_true htest ⟨by decide, fun hk => absurd hk (by decide)⟩
  | 10 | 11 => exact iff_of_false (hcompare _) fun hboth => absurd hboth.1 (by decide)
  | 13 => exact iff_of_true defined_nil ⟨by decide, fun hk => absurd hk (by decide)⟩
  | _ + 15 => exact iff_of_true defined_nil ⟨by omega, fun hk => absurd hk (by omega)⟩

end

/-! ## Loads, stores and branches -/

/-- The amounts of a scaled register are five bit numbers. -/
theorem loadStoreShiftsRotateShifts_defined (shift rm ins : BitVec 32) {shiftImm : BitVec 32}
    (hlt : shiftImm.toNat < 32) :
    Defined (loadStoreShiftsRotateShifts shift shiftImm rm ins) := by
  have hone : Defined [⟨32, shiftImm.toNat⟩] := by
    rw [defined_singleton, inRange_mk]
    omega
  have hbyte := amountByte_of_lt hlt
  have hpos (h0 : shiftImm ≠ 0) : 0 < shiftImm.toNat := BitVec.toNat_pos_of_ne_zero h0
  unfold loadStoreShiftsRotateShifts
  generalize shift.toNat = k
  match k with
  | 0 => exact hone
  | 1 => exact .ite (fun _ => defined_nil) fun _ => hone
  | 2 =>
      refine .ite (fun _ => by decide) fun h0 => ?_
      rw [asrShifts_defined (by rw [hbyte]; exact hpos h0), hbyte]
      exact hlt
  | _ + 3 =>
      refine .ite (fun _ => ?_) fun h0 => ?_
      · exact (Defined.append_iff (by decide)).mpr (.ite (fun _ => defined_nil) fun _ => by decide)
      · rw [rorShifts_defined, hbyte]
        exact ⟨hpos h0, hlt⟩

theorem armLoadStoreShifts_defined (w : BitVec 32) : Defined (armLoadStoreShifts w) := by
  unfold armLoadStoreShifts
  refine (Defined.append_iff (by decide)).mpr (.ite (fun _ => ?_) fun _ => by decide)
  refine (Defined.append_iff (by decide)).mpr (.ite (fun _ => ?_) fun _ => defined_nil)
  exact loadStoreShiftsRotateShifts_defined _ _ _ (amountBits_lt w)

theorem memoryReadWordShifts_defined (mem : Memory) (address : BitVec 32) :
    Defined (memoryReadWordShifts mem address) :=
  .ite (fun _ => .ite (fun _ => by decide) fun _ => by decide) fun _ => defined_nil

/-- Only the rotation of LDR can be by 0. -/
theorem loadStoreByteOrWordShifts_defined (mem : Memory) (address rdValue : BitVec 32)
    (l b : Bool) :
    Defined (loadStoreByteOrWordShifts mem address rdValue (if l then 1 else 0)
      (if b then 1 else 0)) ↔ (l = true → b = false → address.toNat % 4 ≠ 0) := by
  have hread := memoryReadWordShifts_defined
  cases l with
  | false =>
      refine iff_of_true ?_ fun hl => by cases hl
      cases b with
      | false => exact (Defined.append_iff (by decide)).mpr (hread _ _)
      | true =>
          show Defined (getBitsShifts 32 7 0)
          decide
  | true =>
      cases b with
      | true => exact iff_of_true defined_nil fun _ hb => by cases hb
      | false =>
          -- a rotation by 8, 16 or 24, and by 0 from an aligned address
          have hfront : Defined (memoryReadWordShifts mem address ++ getBitsShifts 32 1 0) :=
            defined_append.mpr ⟨hread _ _, by decide⟩
          refine hfront.append_iff.trans ?_
          rw [rorShifts_defined, rotation_toNat]
          constructor
          · intro hrotation _ _
            omega
          · intro hne
            have haddress := hne rfl rfl
            omega

theorem armBranchShifts_defined (w : BitVec 32) : Defined (armBranchShifts w) := by
  have hextend : Defined (extend30Shifts w) :=
    (Defined.append_iff (by decide)).mpr (.ite (fun _ => by decide) fun _ => by decide)
  have hoffset : Defined (extend30Shifts w ++ [⟨32, 2⟩]) :=
    hextend.append_iff.mpr (by decide)
  exact (Defined.append_iff (by decide)).mpr (.ite (fun _ => hoffset) fun _ => hoffset)

theorem conditionPassedShifts_defined (cond : BitVec 8) (flag : BitVec 32) :
    Defined (conditionPassedShifts cond flag) := by
  have hone {i : Int} (hi : 0 ≤ i ∧ i < 32) : Defined (getBitShifts 32 i) :=
    getBitShifts_defined.mpr hi
  have hsigned : Defined (getBitShifts 32 31 ++ getBitShifts 32 28) :=
    defined_append.mpr ⟨hone (by decide), hone (by decide)⟩
  unfold conditionPassedShifts
  generalize cond.toNat = k
  match k with
  | 0 | 1 | 2 | 3 | 4 | 5 | 6 | 7 => exact hone (by decide)
  | 8 | 9 =>
      have hzero : Defined (getBitShifts 32 30) := hone (by decide)
      exact (hone (by decide)).append_iff.mpr (.ite (fun _ => hzero) fun _ => defined_nil)
  | 10 | 11 => exact hsigned
  | 12 => exact (hone (by decide)).append_iff.mpr (.ite (fun _ => hsigned) fun _ => defined_nil)
  | 13 => exact (hone (by decide)).append_iff.mpr (.ite (fun _ => defined_nil) fun _ => hsigned)
  | _ + 14 => exact defined_nil

/-! ## The step -/

section

variable (h : Host) (u : Locals) {w : BitVec 32} (c : ArmCore)

/-- The operand decode and the opcode `switch`. -/
theorem dataProcessingArm_defined (n m : BitVec 32) :
    Defined (dataProcessingOperandShifts u w c ++
      dataProcessingShifts h c.cpsr (getBits w 24 21) n m) ↔ DataProcessingStays u w c.cpsr := by
  rw [defined_append, dataProcessingOperandShifts_defined, dataProcessingShifts_defined,
    getBits_toNat_field w (by decide), ← opcode]
  constructor
  · rintro ⟨⟨hrotation, hshift⟩, hcompare, hflags⟩
    exact ⟨hrotation, hshift, hcompare, hflags⟩
  · rintro ⟨hrotation, hshift, hcompare, hflags⟩
    exact ⟨⟨hrotation, hshift⟩, hcompare, hflags⟩

theorem loadStoreArm_defined (rdValue : BitVec 32) :
    Defined (armLoadStoreShifts w ++ getBitShifts 32 20 ++ getBitShifts 32 22 ++
      loadStoreByteOrWordShifts c.mem (armLoadStore h w) rdValue (getBit w 20) (getBit w 22)) ↔
      (w.getLsbD 20 = true → w.getLsbD 22 = false → (fieldAddress w).toNat % 4 ≠ 0) := by
  have hfront : Defined (armLoadStoreShifts w ++ getBitShifts 32 20 ++ getBitShifts 32 22) :=
    defined_append.mpr ⟨defined_append.mpr ⟨armLoadStoreShifts_defined w, by decide⟩, by decide⟩
  rw [hfront.append_iff, armLoadStore_eq, getBit_eq_of_getLsbD (i := 20) rfl,
    getBit_eq_of_getLsbD (i := 22) rfl, loadStoreByteOrWordShifts_defined]

/-- The dispatch arms, for a word whose condition is taken. -/
theorem executeFetchedShifts_of_class : Defined (executeFetchedShifts h u w c) ↔
    (conditionOf u w c ≠ 0 → match classOf w with
      | .dataProcessing => Defined (dataProcessingOperandShifts u w c ++
          dataProcessingShifts h c.cpsr (getBits w 24 21) (c.regValue (getBits w 19 16).toNat)
            (operandValue h u w c))
      | .loadStore => Defined (armLoadStoreShifts w ++ getBitShifts 32 20 ++ getBitShifts 32 22 ++
          loadStoreByteOrWordShifts c.mem (armLoadStore h w)
            (c.regValue (getBits w 15 12).toNat) (getBit w 20) (getBit w 22))
      | _ => True) := by
  have hasked {shifts : List CShift} :
      Defined (conditionPassedShifts ((getBits w 31 28).setWidth 8) c.cpsr ++
        if conditionOf u w c ≠ 0 then shifts else []) ↔
        (conditionOf u w c ≠ 0 → Defined shifts) := by
    rw [(conditionPassedShifts_defined _ _).append_iff, defined_ite]
    exact and_iff_left fun _ => defined_nil
  unfold executeFetchedShifts classOf
  refine (Defined.append_iff (by decide)).trans ?_
  rw [getBits_toNat_field w (by decide)]
  generalize field w 27 26 = bits26_27
  match bits26_27 with
  | 0 =>
      refine (Defined.append_iff (by decide)).trans ?_
      -- the miscellaneous words are left alone before the condition is asked for
      by_cases hmisc : isMiscellaneous w
      · simp only [if_pos ((isMiscellaneous_iff w).mp hmisc)]
        exact iff_of_true (.ite (fun _ => defined_nil) fun hn => absurd hmisc hn) fun _ => trivial
      · simp only [if_neg fun hn => hmisc ((isMiscellaneous_iff w).mpr hn)]
        have hskip : ¬ (getBits w 24 23 = 0b10 ∧ getBit w 20 = 0) := hmisc
        rw [if_neg hskip]
        exact hasked
  | 1 => exact hasked
  -- the class of a branch, and the loads and stores of several registers
  | 2 =>
      have hbranch := hasked.mpr fun _ => armBranchShifts_defined w
      have harm := Defined.ite (p := getBit w 25 = 0) (fun _ => defined_nil) fun _ => hbranch
      cases w.getLsbD 25 <;> exact iff_of_true harm fun _ => trivial
  | _ + 3 =>
      cases w.getLsbD 25 <;> cases w.getLsbD 24 <;> exact iff_of_true defined_nil fun _ => trivial

/-- With condition AL every dispatch arm is entered. -/
theorem executeFetchedShifts_defined (hal : condField w = AL) :
    Defined (executeFetchedShifts h u w c) ↔ ShiftsStay u w c := by
  rw [executeFetchedShifts_of_class, ShiftsStay]
  refine (forall_prop_of_true (conditionOf_al u hal c)).trans ?_
  cases classOf w with
  | dataProcessing => exact dataProcessingArm_defined h u c _ _
  | loadStore => exact loadStoreArm_defined h c _
  | _ => exact Iff.rfl

/-- The shifts of the fetch are by constants. -/
theorem armStepShifts_defined : Defined (armStepShifts h u c) ↔
    Defined (executeFetchedShifts h u c.fetchedWord c.fetched) := by
  have hfetch : Defined (memoryReadWordShifts c.mem c.fetchAddress) :=
    memoryReadWordShifts_defined _ _
  have hword : BitVec.ofInt 32 (armFetch u.instr c).value.1 = c.fetchedWord := by
    rw [(armFetch_runs u.instr c).value]
    exact Memory.wordResult_eq _ _ _
  rw [armStepShifts, hfetch.append_iff, hword, (armFetch_runs u.instr c).state]

end

/-- **The amounts stay below the width exactly for these words.** Every shift that the step
evaluates counts, those of the macros and of the fetch included, in the order of the source. -/
theorem shiftAmountsLaw_iff (h : Host) (u : Locals) {c : ArmCore} (hin : c.InBounds)
    (hal : condField c.word = AL) : ShiftAmountsLaw h u c ↔ ShiftsStay u c.word c := by
  have hstay : ShiftsStay u c.word c.fetched ↔ ShiftsStay u c.word c := by
    rw [ShiftsStay, c.fetched_cpsr]
    rfl
  calc ShiftAmountsLaw h u c ↔ Defined (armStepShifts h u c) := Iff.rfl
    _ ↔ Defined (executeFetchedShifts h u c.word c.fetched) := by
        rw [armStepShifts_defined, hin.fetchedWord]
    _ ↔ ShiftsStay u c.word c := (executeFetchedShifts_defined h u _ hal).trans hstay

/-- `ADD r0, r1, r2`. -/
theorem shiftAmountsLaw_iff_add :
    ShiftAmountsLaw Host.masked ⟨0, 0, 0, 0, 0, 0⟩ (executing 0xE0810002 fun _ => 0) ↔
      ShiftsStay ⟨0, 0, 0, 0, 0, 0⟩ 0xE0810002 (executing 0xE0810002 fun _ => 0) :=
  shiftAmountsLaw_iff (c := executing 0xE0810002 fun _ => 0) Host.masked ⟨0, 0, 0, 0, 0, 0⟩
    (by decide) (by decide)

/-- `MOV r0, #1` shifts 1 by 32 to the left. -/
theorem not_shiftAmountsLaw_mov :
    ¬ ShiftAmountsLaw Host.masked ⟨0, 0, 0, 0, 0, 0⟩ (executing 0xE3A00001 fun _ => 0) := by
  intro hlaw
  exact absurd (hlaw ⟨32, 32⟩ (by decide)) (by decide)

/-! ## Hosts

A shift whose amount is in range is the same on all hosts. -/

section

variable (h h' : Host) (u : Locals) {w : BitVec 32}

theorem logicalShift_host {x : BitVec 32} (hx : x.toNat < 32) (v : BitVec 32) (direction : Char) :
    logicalShift h' v x direction = logicalShift h v x direction := by
  have hamount : 0 ≤ (x.toNat : Int) ∧ (x.toNat : Int) < 32 := by omega
  unfold logicalShift cShr cShl
  rw [if_pos hamount, if_pos hamount, if_pos hamount, if_pos hamount]

theorem ror_host {r : BitVec 8} (hd : Defined (rorShifts r)) (v : BitVec 32) :
    ror h' v r = ror h v r := by
  obtain ⟨hpos, hlt⟩ := rorShifts_defined.mp hd
  rw [ror_eq h' v hpos hlt, ror_eq h v hpos hlt]

/-- The shifted operand, for a `shift_imm` in range where it is used. -/
theorem shifterResult_host (m : BitVec 32) (carry : Bool)
    (hd : Defined (shiftedRegisterOperandShifts u w m)) :
    (shifterResult h' u.shiftImm w m (flagWord carry)).1
      = (shifterResult h u.shiftImm w m (flagWord carry)).1 := by
  cases h4 : w.getLsbD 4 with
  -- the number of a register is never too large
  | true => rw [shifterResult_rs h4, shifterResult_rs h4]
  | false =>
      have hlt := (shiftedRegisterOperandShifts_immediate u m h4).mp hd
      have hpos (h0 : u.shiftImm ≠ 0) : 0 < u.shiftImm.toNat := BitVec.toNat_pos_of_ne_zero h0
      rcases shiftKind_cases w with hk | hk | hk | hk
      · rw [shifterResult_LSL h' m h4 _ _ hk, shifterResult_LSL h m h4 _ _ hk,
          logicalShift_host h h' (amountBits_lt w)]
        split <;> rfl
      · rw [shifterResult_LSR h' m h4 _ _ hk, shifterResult_LSR h m h4 _ _ hk,
          logicalShift_host h h' (hlt (usesShiftImm_right h4 (.inl hk)))]
        split <;> rfl
      · have h32 := hlt (usesShiftImm_right h4 (.inr hk))
        have hbyte := amountByte_of_lt h32
        rw [shifterResult_ASR h' m h4 _ _ hk, shifterResult_ASR h m h4 _ _ hk]
        by_cases h0 : u.shiftImm = 0
        · rw [if_pos h0, if_pos h0]
        · have hpos' := hpos h0
          rw [if_neg h0, if_neg h0, asr_eq h' m (by omega) (by omega),
            asr_eq h m (by omega) (by omega)]
      · rw [shifterResult_ROR h' m h4 _ _ hk, shifterResult_ROR h m h4 _ _ hk]
        by_cases h0 : getBits w 11 7 = 0 ∨ u.shiftImm = 0
        · rw [if_pos h0, if_pos h0]
        · obtain ⟨hne, hne'⟩ := not_or.mp h0
          have h32 := hlt ((usesShiftImm_rotate h4 hk).mpr fun hn => hne (bits7_11_eq_zero.mpr hn))
          have hrotation : Defined (rorShifts (u.shiftImm.setWidth 8)) := by
            rw [rorShifts_defined, amountByte_of_lt h32]
            exact ⟨hpos hne', h32⟩
          rw [if_neg h0, if_neg h0, ror_host h h' hrotation]

variable (c : ArmCore)

theorem operandValue_host (hd : Defined (dataProcessingOperandShifts u w c)) :
    operandValue h' u w c = operandValue h u w c := by
  rw [dataProcessingOperandShifts, defined_ite] at hd
  cases h25 : w.getLsbD 25 with
  | false =>
      have hshifted := hd.1 (getBit_eq_zero.mpr h25)
      rw [operandValue_register h' u c h25, operandValue_register h u c h25]
      by_cases h0 : u.bits4_11 = 0
      · rw [if_pos h0, if_pos h0]
      · rw [if_neg h0] at hshifted
        rw [if_neg h0, if_neg h0]
        have hcarry : getBit c.cpsr C = flagWord (c.cpsr.getLsbD C) := getBit_eq_ofBool c.cpsr C
        rw [hcarry, rm, ← getBits_toNat_field w (by decide)]
        exact shifterResult_host h h' u _ _ hshifted
  | true =>
      have hrotated := hd.2 (getBit_ne_zero.mpr h25)
      have hrotation := (defined_append.mp (defined_append.mp hrotated).1).2
      rw [operandValue_rotated h' u c h25, operandValue_rotated h u c h25, ror_host h h' hrotation]

theorem loadStoreWrites_host {address : BitVec 32} {rdValue bit20 bit22 : BitVec 32} (rd : Nat)
    (hd : Defined (loadStoreByteOrWordShifts c.mem address rdValue bit20 bit22)) :
    loadStoreWrites h' c.mem address rdValue bit20 bit22 rd
      = loadStoreWrites h c.mem address rdValue bit20 bit22 rd := by
  unfold loadStoreByteOrWordShifts at hd
  unfold loadStoreWrites
  by_cases hload : bit20 ≠ 0 ∧ bit22 = 0
  · -- LDR is the one arm that asks the host
    have hstore : ¬ (bit20 = 0 ∧ bit22 = 0) := fun hn => hload.1 hn.1
    have hbyte : ¬ (bit20 = 0 ∧ bit22 ≠ 0) := fun hn => hload.1 hn.1
    rw [if_neg hstore, if_neg hbyte, if_pos hload] at hd
    rw [if_pos hload, if_pos hload, loadedWord, loadedWord,
      ror_host h h' (defined_append.mp hd).2]
  · rw [if_neg hload, if_neg hload]

theorem executedWrites_host (hexec : conditionOf u w c ≠ 0)
    (hd : Defined (executeFetchedShifts h u w c)) :
    executedWrites h' u w c = executedWrites h u w c := by
  have harm := (executeFetchedShifts_of_class h u c).mp hd hexec
  rw [executedWrites_of_class, executedWrites_of_class]
  cases hclass : classOf w with
  | dataProcessing =>
      rw [hclass] at harm
      have hoperand := (defined_append.mp harm).1
      show dataProcessingWrites _ _ _ _ _ = dataProcessingWrites _ _ _ _ _
      rw [operandValue_host h h' u c hoperand]
  | loadStore =>
      rw [hclass] at harm
      have haddress : armLoadStore h' w = armLoadStore h w := by
        rw [armLoadStore_eq, armLoadStore_eq]
      have hrd : (getBits w 15 12).toNat = rd w := getBits_toNat_field w (by decide)
      show loadStoreWrites _ _ _ _ _ _ _ = loadStoreWrites _ _ _ _ _ _ _
      rw [haddress, ← hrd]
      exact loadStoreWrites_host h h' c _ (defined_append.mp harm).2
  | _ => rfl

/-- **A step whose shifts are all in range ends in the same state on every host.** -/
theorem armStep_host (hlaw : ShiftAmountsLaw h u c) :
    (armStep h' u c).state = (armStep h u c).state := by
  have hd := (armStepShifts_defined h u c).mp hlaw
  rw [armStep_state, armStep_state, stepState, stepState, stepWrites, stepWrites]
  by_cases hexec : conditionOf u c.fetchedWord c ≠ 0
  · have hfetched : conditionOf u c.fetchedWord c.fetched ≠ 0 := by
      rw [conditionOf, c.fetched_cpsr]
      exact hexec
    rw [if_pos hexec, if_pos hexec, executedWrites_host h h' u c.fetched hfetched hd]
  · rw [if_neg hexec, if_neg hexec]

end

end Armator
