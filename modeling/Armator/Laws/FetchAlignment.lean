import Armator.Semantics.Branch
import Armator.Semantics.Run

set_option autoImplicit false

/-! # The alignment of the fetches

Reads of the pc mask out bit 1 and leave bit 0. An odd pc is stored by a data-processing
instruction, which writes its result as it is, and by LDRB; the fetch then reads at an odd
address. In every other step the alignment is kept (`fetchAlignment_iff`).
-/

namespace Armator

open Arch

/-- Bit 0 of what the opcode `k` stores, from bit 0 of its operands and the carry flag.
`zero` says whether the second operand is 0. -/
def storesOdd (k : Nat) (n m carry zero : Bool) : Bool :=
  match k with
  | 0b0000 => n && m
  | 0b0001 | 0b0010 | 0b0011 | 0b0100 => n ^^ m
  | 0b0101 => n ^^ m ^^ carry
  | 0b0110 | 0b0111 => n ^^ m ^^ !carry
  | 0b1000 | 0b1001 | 0b1010 | 0b1011 => false
  | 0b1100 => n || m
  | 0b1101 => m
  | 0b1110 => n && zero
  | _ => zero

/-- The word `w`, executed in the state `c`, stores an odd value in `r15`. -/
structure StoresOdd (h : Host) (u : Locals) (c : ArmCore) (w : BitVec 32) : Prop where
  rd : rd w = 15
  odd : classOf w = .dataProcessing ∧
      storesOdd (opcode w) ((c.operand (rn w)).getLsbD 0)
        ((operandValue h u w c.fetched).getLsbD 0) c.flags.c
        (operandValue h u w c.fetched = 0) = true ∨
    classOf w = .loadStore ∧ w.getLsbD 20 = true ∧ w.getLsbD 22 = true ∧
      (c.mem.byteResult (armLoadStore h w)).getLsbD 0 = true

/-- The next step executes such a word. -/
def StoresOddPc (h : Host) (u : Locals) (c : ArmCore) : Prop :=
  conditionOf u c.fetchedWord c ≠ 0 ∧ StoresOdd h u c c.fetchedWord

section

variable {h : Host} {u : Locals} {c : ArmCore}

/-! ## Parity -/

theorem getLsbD_zero_eq (x : BitVec 32) : x.getLsbD 0 = decide (x.toNat % 2 = 1) := by
  rw [← BitVec.testBit_toNat, Nat.testBit_zero]

theorem add_getLsbD_zero (x y : BitVec 32) :
    (x + y).getLsbD 0 = (x.getLsbD 0 ^^ y.getLsbD 0) := by
  rw [BitVec.getLsbD_add (by decide), BitVec.carry_zero, Bool.xor_false]

theorem sub_getLsbD_zero (x y : BitVec 32) :
    (x - y).getLsbD 0 = (x.getLsbD 0 ^^ y.getLsbD 0) := by
  have hsum : (x - y + y).getLsbD 0 = x.getLsbD 0 := by rw [BitVec.sub_add_cancel]
  rw [add_getLsbD_zero] at hsum
  rw [← hsum, Bool.xor_assoc, Bool.xor_self, Bool.xor_false]

theorem getBit_getLsbD_zero (x : BitVec 32) (i : Nat) :
    (getBit x i).getLsbD 0 = x.getLsbD i := by
  rw [getBit_eq_ofBool]
  cases x.getLsbD i <;> rfl

theorem cNot_getLsbD_zero (x : BitVec 32) : (cNot x).getLsbD 0 = decide (x = 0) := by
  unfold cNot
  split
  · rename_i h0
    rw [h0]
    rfl
  · rename_i h0
    rw [decide_eq_false h0]
    rfl

/-- The fetch address is aligned when bit 0 of the pc is clear. -/
theorem fetchAddress_aligned_iff (c : ArmCore) :
    c.fetchAddress.toNat % 4 = 0 ↔ c.pc.getLsbD 0 = false := by
  have h0 : c.fetchAddress.getLsbD 0 = c.pc.getLsbD 0 := by
    rw [c.fetchAddress_eq_mask, BitVec.getLsbD_and, mask_getLsbD (by decide)]
    exact Bool.and_true _
  have h1 : c.fetchAddress.getLsbD 1 = false := by
    rw [c.fetchAddress_eq_mask, BitVec.getLsbD_and, mask_getLsbD (by decide)]
    exact Bool.and_false _
  rw [getLsbD_one, decide_eq_false_iff_not] at h1
  rw [← h0, getLsbD_zero_eq, decide_eq_false_iff_not]
  omega

/-! ## What a step stores -/

/-- The result of an opcode is odd when `storesOdd` says so. -/
theorem aluResult_getLsbD_zero {k : Nat} {n m cpsr value : BitVec 32}
    (hresult : aluResult k n m (getBit cpsr C) = some value) :
    value.getLsbD 0 = storesOdd k (n.getLsbD 0) (m.getLsbD 0) (Flags.ofCpsr cpsr).c (m = 0) := by
  have hc : (Flags.ofCpsr cpsr).c = cpsr.getLsbD 29 := rfl
  have hborrow : decide (getBit cpsr 29 = 0) = !cpsr.getLsbD 29 := by
    rw [getBit_eq_ofBool]
    cases cpsr.getLsbD 29 <;> decide
  unfold aluResult at hresult
  unfold storesOdd
  rw [hc]
  split at hresult <;> cases hresult <;>
    simp only [BitVec.getLsbD_and, BitVec.getLsbD_or, BitVec.getLsbD_xor, add_getLsbD_zero,
      sub_getLsbD_zero, getBit_getLsbD_zero, cNot_getLsbD_zero, C]
  -- the opcodes that reverse their operands, or subtract the negated carry
  · exact Bool.xor_comm _ _
  · rw [hborrow]
  · rw [hborrow, Bool.xor_comm (m.getLsbD 0)]

/-- The comparison opcodes store nothing. -/
theorem storesOdd_of_none {k : Nat} {n m carry : BitVec 32} (hnone : aluResult k n m carry = none)
    (a b c z : Bool) : storesOdd k a b c z = false := by
  unfold aluResult at hnone
  split at hnone <;> first | rfl | cases hnone

/-- The datum LDR writes to the pc is even. -/
theorem loadedWord_even (mem : Memory) (address : BitVec 32) :
    (loadedWord h mem address 15).getLsbD 0 = false := by
  have hmask : (0xFFFFFFFE : BitVec 32).getLsbD 0 = false := by decide
  rw [loadedWord, if_pos rfl, BitVec.getLsbD_and, hmask, Bool.and_false]

theorem branchTarget_even (hal : c.fetchAddress.toNat % 4 = 0) (w : BitVec 32) :
    (branchTarget w c.fetched).getLsbD 0 = false := by
  have hoffset := branchOffset_toNat_mod w
  rw [branchTarget, c.regValue_fetched_eq, ArmCore.operand, if_pos rfl, extend30_shift,
    getLsbD_zero_eq, decide_eq_false_iff_not, BitVec.toNat_add, BitVec.toNat_add,
    show (8 : BitVec 32).toNat = 8 from rfl]
  omega

theorem fetched_pc_even (hal : c.fetchAddress.toNat % 4 = 0) : c.fetched.pc.getLsbD 0 = false := by
  have hpc : c.fetched.pc = c.fetchAddress + 4 := c.fetched_pc
  rw [hpc, getLsbD_zero_eq, decide_eq_false_iff_not, BitVec.toNat_add,
    show (4 : BitVec 32).toNat = 4 from rfl]
  omega

/-- After a write the pc is odd when it was written with an odd value. -/
theorem setReg_pc_odd {d : ArmCore} (heven : ¬ d.pc.getLsbD 0 = true) (r : Nat)
    (value : BitVec 32) :
    (d.setReg r value).pc.getLsbD 0 = true ↔ r = 15 ∧ value.getLsbD 0 = true := by
  by_cases hr : r = 15
  · have hpc : (d.setReg r value).pc = value := by
      rw [hr]
      exact d.setReg_same 15 value
    rw [hpc]
    exact (and_iff_right hr).symm
  · have hpc : (d.setReg r value).pc = d.pc := d.setReg_of_ne (Ne.symm hr) value
    rw [hpc]
    exact iff_of_false heven fun hodd => hr hodd.1

theorem storesOdd_iff_dataProcessing {w : BitVec 32} (hclass : classOf w = .dataProcessing) :
    StoresOdd h u c w ↔ rd w = 15 ∧
      storesOdd (opcode w) ((c.operand (rn w)).getLsbD 0)
        ((operandValue h u w c.fetched).getLsbD 0) c.flags.c
        (operandValue h u w c.fetched = 0) = true := by
  constructor
  · rintro ⟨hrd, ⟨_, hodd⟩ | ⟨hload, _⟩⟩
    · exact ⟨hrd, hodd⟩
    · rw [hclass] at hload
      cases hload
  · rintro ⟨hrd, hodd⟩
    exact ⟨hrd, .inl ⟨hclass, hodd⟩⟩

theorem storesOdd_iff_loadStore {w : BitVec 32} (hclass : classOf w = .loadStore) :
    StoresOdd h u c w ↔ rd w = 15 ∧ w.getLsbD 20 = true ∧ w.getLsbD 22 = true ∧
      (c.mem.byteResult (armLoadStore h w)).getLsbD 0 = true := by
  constructor
  · rintro ⟨hrd, ⟨hdata, _⟩ | ⟨_, hbits⟩⟩
    · rw [hclass] at hdata
      cases hdata
    · exact ⟨hrd, hbits⟩
  · rintro ⟨hrd, hbits⟩
    exact ⟨hrd, .inr ⟨hclass, hbits⟩⟩

theorem dataProcessingWrites_pc_odd (heven : ¬ c.fetched.pc.getLsbD 0 = true) {w : BitVec 32}
    (hclass : classOf w = .dataProcessing) :
    (applyWrites (dataProcessingWrites (opcode w) (c.fetched.regValue (rn w))
        (operandValue h u w c.fetched) (getBit c.fetched.cpsr C) (rd w)) c.fetched).pc.getLsbD 0
      = true ↔ StoresOdd h u c w := by
  rw [storesOdd_iff_dataProcessing hclass, dataProcessingWrites, c.regValue_fetched_eq,
    c.fetched_cpsr]
  cases hresult : aluResult (opcode w) (c.operand (rn w)) (operandValue h u w c.fetched)
      (getBit c.cpsr C) with
  | none =>
      refine iff_of_false heven fun hstores => ?_
      have hodd := hstores.2
      rw [storesOdd_of_none hresult] at hodd
      cases hodd
  | some value =>
      have hodd := aluResult_getLsbD_zero hresult
      show (c.fetched.setReg (rd w) value).pc.getLsbD 0 = true ↔ _
      rw [setReg_pc_odd heven, hodd]
      rfl

theorem loadStoreWrites_pc_odd (heven : ¬ c.fetched.pc.getLsbD 0 = true) {w : BitVec 32}
    (hclass : classOf w = .loadStore) :
    (applyWrites (loadStoreWrites h c.fetched.mem (armLoadStore h w) (c.fetched.regValue (rd w))
        (getBit w 20) (getBit w 22) (rd w)) c.fetched).pc.getLsbD 0 = true ↔
      StoresOdd h u c w := by
  rw [storesOdd_iff_loadStore hclass]
  unfold loadStoreWrites
  simp only [getBit_eq_zero, ne_eq, Bool.not_eq_false]
  cases h20 : w.getLsbD 20 with
  | false =>
      -- the two stores
      refine iff_of_false ?_ fun hload => Bool.false_ne_true hload.2.1
      cases w.getLsbD 22 with
      | false => exact heven
      | true => exact heven
  | true =>
      cases h22 : w.getLsbD 22 with
      | false =>
          show (c.fetched.setReg (rd w) (loadedWord h c.mem _ (rd w))).pc.getLsbD 0 = true ↔ _
          rw [setReg_pc_odd heven]
          refine iff_of_false ?_ fun hbyte => Bool.false_ne_true hbyte.2.2.1
          rintro ⟨hrd, hodd⟩
          rw [hrd, loadedWord_even] at hodd
          cases hodd
      | true =>
          show (c.fetched.setReg (rd w) ((c.mem.byteResult _).setWidth 32)).pc.getLsbD 0 = true ↔ _
          rw [setReg_pc_odd heven, BitVec.getLsbD_setWidth]
          simp

/-- The pc after the writes of an executed word is odd when the word stores an odd value there. -/
theorem executedWrites_pc_odd (hal : c.fetchAddress.toNat % 4 = 0) (w : BitVec 32) :
    (applyWrites (executedWrites h u w c.fetched) c.fetched).pc.getLsbD 0 = true ↔
      StoresOdd h u c w := by
  have heven : ¬ c.fetched.pc.getLsbD 0 = true := by
    rw [fetched_pc_even hal]
    exact Bool.false_ne_true
  have hother (hdata : classOf w ≠ .dataProcessing) (hload : classOf w ≠ .loadStore) :
      ¬ StoresOdd h u c w := by
    rintro ⟨_, ⟨hclass, _⟩ | ⟨hclass, _⟩⟩
    · exact hdata hclass
    · exact hload hclass
  rw [executedWrites_of_class]
  split
  · rename_i hclass
    exact dataProcessingWrites_pc_odd heven hclass
  · rename_i hclass
    exact loadStoreWrites_pc_odd heven hclass
  · rename_i hclass
    refine iff_of_false ?_ (hother (by rw [hclass]; decide) (by rw [hclass]; decide))
    have hpc : (applyWrites (branchWrites w c.fetched) c.fetched).pc = branchTarget w c.fetched := by
      unfold branchWrites
      split
      · exact ArmCore.setReg_same _ 15 _
      · exact ArmCore.setReg_same _ 15 _
    rw [hpc, branchTarget_even hal]
    exact Bool.false_ne_true
  · rename_i hdata hload _
    exact iff_of_false heven (hother hdata hload)

/-- **A step leaves the fetch aligned, unless it stores an odd value in the pc.** -/
theorem stepState_aligned_iff (hal : c.fetchAddress.toNat % 4 = 0) :
    (stepState h u c).fetchAddress.toNat % 4 = 0 ↔ ¬ StoresOddPc h u c := by
  rw [fetchAddress_aligned_iff, ← Bool.not_eq_true, not_iff_not, StoresOddPc, stepState, stepWrites]
  by_cases hexec : conditionOf u c.fetchedWord c ≠ 0
  · rw [if_pos hexec, executedWrites_pc_odd hal]
    exact (and_iff_right hexec).symm
  · rw [if_neg hexec]
    refine iff_of_false ?_ fun hstores => hexec hstores.1
    rw [applyWrites_nil, fetched_pc_even hal]
    exact Bool.false_ne_true

end

/-! ## The law -/

/-- The next fetch, after each of up to `n` steps, reads at a multiple of 4. -/
def FetchAlignmentLaw (h : Host) (us : Nat → Locals) (c : ArmCore) (n : Nat) : Prop :=
  ∀ k ≤ n, (c.after h us k).fetchAddress.toNat % 4 = 0

/-- **Every fetch of a run is aligned exactly when no step stores an odd value in the pc.** -/
theorem fetchAlignment_iff (h : Host) (us : Nat → Locals) {c : ArmCore} (hpc : c.Aligned)
    (n : Nat) :
    FetchAlignmentLaw h us c n ↔ ∀ k < n, ¬ StoresOddPc h (us k) (c.after h us k) := by
  constructor
  · intro hlaw k hk
    have hnext := hlaw (k + 1) hk
    rw [ArmCore.after_succ, stepState_aligned_iff (hlaw k (by omega))] at hnext
    exact hnext
  · intro hsteps k hk
    induction k with
    | zero =>
        have hstart : c.fetchAddress.toNat % 4 = 0 := by
          rw [hpc.fetchAddress]
          exact hpc
        exact hstart
    | succ k ih =>
        rw [ArmCore.after_succ, stepState_aligned_iff (ih (by omega))]
        exact hsteps k hk

/-- Two words of zeros, from address 0. -/
theorem fetchAlignment_iff_zeros :
    FetchAlignmentLaw Host.masked (fun _ => ⟨0, 0, 0, 0, 0, 0⟩) (executing 0 fun _ => 0) 2 ↔
      ∀ k < 2, ¬ StoresOddPc Host.masked ⟨0, 0, 0, 0, 0, 0⟩
        ((executing 0 fun _ => 0).after Host.masked (fun _ => ⟨0, 0, 0, 0, 0, 0⟩) k) :=
  fetchAlignment_iff _ _ (by decide) 2

/-- After `MOV pc, #1` the fetch reads at address 1. -/
theorem not_fetchAlignmentLaw_mov :
    ¬ FetchAlignmentLaw Host.masked (fun _ => ⟨0, 0, 0, 0, 0, 0⟩)
      (executing 0xE3A0F001 fun _ => 0) 1 := by
  intro hlaw
  exact absurd (hlaw 1 (Nat.le_refl 1)) (by decide)

end Armator
