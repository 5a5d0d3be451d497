import Armator.Laws.ScaledIndex

set_option autoImplicit false

/-! # The effective-address law of loads and stores

`arm_load_store` computes with the *numbers* of the registers Rn and Rm and adds the offset in
every addressing mode (`armLoadStore_eq`).
-/

namespace Armator

open Arch

/-! ## What `arm_load_store` computes -/

/-- The offset `arm_load_store` uses: that of the architecture over register *numbers*, and 0
or 1 for RRX, where bit 29 of the word is taken for the carry flag. -/
def fieldOffset (w : BitVec 32) : BitVec 32 :=
  if w.getLsbD 25 ∧ shiftKind w = .ROR ∧ shiftAmount w = 0 then
    if w.getLsbD 29 ∨ 2 ≤ rm w then 1 else 0
  else offset w (BitVec.ofNat 32) false

/-- The number of Rn plus or minus the offset. -/
def fieldAddress (w : BitVec 32) : BitVec 32 :=
  displaced w (BitVec.ofNat 32 (rn w)) (fieldOffset w)

/-- The index of the scaled register, for the number of Rm. -/
theorem loadStoreShiftsRotate_eq (h : Host) (w : BitVec 32) :
    loadStoreShiftsRotate h (getBits w 6 5) (getBits w 11 7) (getBits w 3 0) w
      = if shiftKind w = .ROR ∧ shiftAmount w = 0 then
          (if w.getLsbD 29 ∨ 2 ≤ rm w then 1 else 0)
        else immediateShift (shiftKind w) (shiftAmount w) false (BitVec.ofNat 32 (rm w)) := by
  have hnumber : (getBits w 3 0).toNat = rm w := getBits_toNat_field w (by decide)
  have hrm : getBits w 3 0 = BitVec.ofNat 32 (rm w) := getBits_eq_ofNat w (by decide)
  rw [loadStoreShiftsRotate_value w _ h false, hnumber, hrm]

/-- **`arm_load_store` works on register numbers**, and ignores P. -/
theorem armLoadStore_eq (h : Host) (w : BitVec 32) : armLoadStore h w = fieldAddress w := by
  have hrn : getBits w 19 16 = BitVec.ofNat 32 (rn w) := getBits_eq_ofNat w (by decide)
  have hoffset : getBits w 11 0 = BitVec.ofNat 32 (field w 11 0) := getBits_eq_ofNat w (by decide)
  -- the plain register form is the scaled one with LSL #0
  have hplain : getBits w 11 4 = 0 → getBits w 3 0 =
      loadStoreShiftsRotate h (getBits w 6 5) (getBits w 11 7) (getBits w 3 0) w := by
    intro h0
    have hfield : field w 11 4 = 0 := by
      rw [← getBits_toNat_field w (by decide), h0]
      rfl
    have hkind : field w 6 5 = 0 := by simp only [field] at hfield ⊢; omega
    have hamount : shiftAmount w = 0 := by simp only [shiftAmount, field] at hfield ⊢; omega
    rw [loadStoreShiftsRotate_eq, shiftKind, hkind, hamount, if_neg (by decide)]
    exact (getBits_eq_ofNat w (by decide)).trans (BitVec.shiftLeft_zero _).symm
  have hsum (offset : BitVec 32) : (if getBit w 23 ≠ 0 then getBits w 19 16 + offset
      else getBits w 19 16 - offset) = displaced w (BitVec.ofNat 32 (rn w)) offset := by
    rw [hrn, displaced]
    cases h23 : w.getLsbD 23 with
    | false => exact if_neg (not_not.mpr (getBit_eq_zero.mpr h23))
    | true => exact if_pos (getBit_ne_zero.mpr h23)
  unfold armLoadStore
  simp only [getValueFromIns, hsum, ite_self]
  cases h25 : w.getLsbD 25 with
  | false =>
      rw [if_neg (not_not.mpr (getBit_eq_zero.mpr h25)), fieldAddress, fieldOffset, offset, h25,
        hoffset]
      rfl
  | true =>
      rw [if_pos (getBit_ne_zero.mpr h25)]
      have hindex : fieldOffset w =
          loadStoreShiftsRotate h (getBits w 6 5) (getBits w 11 7) (getBits w 3 0) w := by
        rw [loadStoreShiftsRotate_eq, fieldOffset, offset, h25]
        simp only [true_and, if_true]
      by_cases h0 : getBits w 11 4 = 0
      · rw [if_neg (not_not.mpr h0), fieldAddress, hindex, ← hplain h0]
      · rw [if_pos h0, fieldAddress, hindex]

/-! ## The law -/

/-- The address the load or store at the pc should access. -/
def ArmCore.effectiveAddress (c : ArmCore) : BitVec 32 :=
  Arch.effectiveAddress c.word c.operand c.flags.c

/-- The step accesses data, and only at the effective address. -/
def AddressLaw (h : Host) (u : Locals) (c : ArmCore) : Prop :=
  (armStep h u c).events.filterMap Event.dataAddress? ≠ [] ∧
    ∀ address ∈ (armStep h u c).events.filterMap Event.dataAddress?,
      address = c.effectiveAddress

theorem loadStoreAccesses_ne_nil (u : Locals) (c : ArmCore)
    (address rdValue bit20 bit22 : BitVec 32) :
    loadStoreAccesses u c address rdValue bit20 bit22 ≠ [] := by
  unfold loadStoreAccesses
  split
  · simp
  · split
    · simp
    · split <;> simp

/-- **The law holds exactly when the contents of the registers give the address their numbers
give.** -/
theorem addressLaw_iff (h : Host) (u : Locals) (c : ArmCore) (hin : c.InBounds)
    (hal : condField c.word = AL) (hclass : classOf c.word = .loadStore) :
    AddressLaw h u c ↔ c.effectiveAddress = fieldAddress c.word := by
  have haccesses : stepAccesses h u c ≠ [] := by
    rw [stepAccesses, hin.fetchedWord, if_pos (conditionOf_al u hal c),
      executedAccesses_of_class, if_pos hclass]
    exact loadStoreAccesses_ne_nil _ _ _ _ _ _
  -- every access of the step is at the address of the register numbers
  rw [AddressLaw, armStep_dataAddresses, hin.fetchedWord, armLoadStore_eq]
  constructor
  · rintro ⟨-, hall⟩
    obtain ⟨e, he⟩ := List.exists_mem_of_ne_nil _ haccesses
    exact (hall _ (List.mem_map_of_mem he)).symm
  · intro heq
    refine ⟨fun hnil => haccesses (List.map_eq_nil_iff.mp hnil), fun address hmem => ?_⟩
    obtain ⟨e, -, rfl⟩ := List.mem_map.mp hmem
    exact heq.symm

/-- `LDR r1, [r2]` with 2 in `r2`. -/
theorem addressLaw_iff_load :
    AddressLaw Host.masked ⟨0, 0, 0, 0, 0, 0⟩ (executing 0xE5921000 fun _ => 2) ↔
      (executing 0xE5921000 fun _ => 2).effectiveAddress
        = fieldAddress (executing 0xE5921000 fun _ => 2).word :=
  addressLaw_iff _ _ _ (by decide) (by decide) (by decide)

/-- `LDR r1, [r2]` with 32 in `r2` loads from address 2. -/
theorem not_addressLaw_load :
    ¬ AddressLaw Host.masked ⟨0, 0, 0, 0, 0, 0⟩ (executing 0xE5921000 fun _ => 32) := by
  have hall : (armStep Host.masked ⟨0, 0, 0, 0, 0, 0⟩
      (executing 0xE5921000 fun _ => 32)).events.filterMap Event.dataAddress? = [2] := by decide
  intro hlaw
  have heq := hlaw.2 2 (by rw [hall]; exact List.mem_singleton_self 2)
  exact absurd heq (by decide)

end Armator
