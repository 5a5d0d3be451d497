import Armator.Semantics.Step

set_option autoImplicit false

/-! # What a step can write

The inversion of `executedWrites`: every write is one that the class of the word allows
(`executedWrites_regs`, `executedWrites_cells`). With the frame lemmas of write lists it gives
what a step leaves unchanged; no law has to go through the dispatcher.
-/

namespace Armator

open Arch

/-! ## Write lists -/

/-- The registers a write names. -/
def Write.regs : Write → List Nat
  | .reg r _ => [r]
  | _ => []

/-- The memory cells a write covers. -/
def Write.cells : Write → List Nat
  | .reg .. => []
  | .word address _ => covered address 4
  | .byte address _ => covered address 1

theorem Write.apply_reg {x : Write} {r : Nat} (h : r ∉ x.regs) (c : ArmCore) :
    (x.apply c).reg.rData r = c.reg.rData r := by
  cases x with
  | reg r' value => exact c.setReg_of_ne (fun hr => h (List.mem_singleton.mpr hr)) value
  | word => rfl
  | byte => rfl

theorem Write.apply_cell {x : Write} {i : Nat} (h : i ∉ x.cells) (c : ArmCore) :
    (x.apply c).mem.address i = c.mem.address i := by
  cases x with
  | reg => rfl
  | word address value => exact memoryWrite_frame .word c.mem address value h
  | byte address value => exact memoryWrite_frame .byte c.mem address value h

theorem Write.apply_size (x : Write) (c : ArmCore) : (x.apply c).mem.size = c.mem.size := by
  cases x with
  | reg => rfl
  | word address value => exact memoryWrite_size .word c.mem address value
  | byte => rfl

theorem Write.apply_isBigEndian (x : Write) (c : ArmCore) :
    (x.apply c).mem.isBigEndian = c.mem.isBigEndian := by
  cases x with
  | reg => rfl
  | word address value => exact memoryWrite_isBigEndian .word c.mem address value
  | byte => rfl

theorem Write.apply_cycleCount (x : Write) (c : ArmCore) :
    (x.apply c).cycleCount = c.cycleCount := by
  cases x <;> rfl

/-- What every write of a list leaves alone, the list leaves alone. -/
theorem applyWrites_keeps {α : Type} {ws : List Write} (f : ArmCore → α)
    (h : ∀ x ∈ ws, ∀ c, f (x.apply c) = f c) (c : ArmCore) : f (applyWrites ws c) = f c := by
  induction ws generalizing c with
  | nil => rfl
  | cons x ws ih =>
      rw [applyWrites_cons, ih (fun y hy => h y (List.mem_cons_of_mem x hy)),
        h x List.mem_cons_self]

/-! ## The writes of a word -/

/-- The registers a word may write besides the pc increment of the fetch. -/
def MayWriteReg (w : BitVec 32) (r : Nat) : Prop :=
  r = rd w ∧ WritesRd w ∨ r = 15 ∧ classOf w = .branch ∨ r = 14 ∧ IsBranchLink w

/-- The memory cells a word may write. -/
def MayWriteCell (h : Host) (w : BitVec 32) (i : Nat) : Prop :=
  IsStoreWord w ∧ i ∈ covered (armLoadStore h w) 4 ∨
    IsStoreByte w ∧ i ∈ covered (armLoadStore h w) 1

variable {h : Host} {u : Locals} {w : BitVec 32} {c : ArmCore} {x : Write}

theorem aluResult_comparison {k : Nat} (hk : k / 4 = 2) (n m carry : BitVec 32) :
    aluResult k n m carry = none := by
  have hcases : k = 8 ∨ k = 9 ∨ k = 10 ∨ k = 11 := by omega
  rcases hcases with rfl | rfl | rfl | rfl <;> rfl

theorem mem_dataProcessingWrites {n m carry : BitVec 32}
    (hx : x ∈ dataProcessingWrites (opcode w) n m carry (rd w)) :
    ¬ IsComparison w ∧ ∃ value, x = .reg (rd w) value := by
  obtain ⟨value, hvalue, rfl⟩ := List.mem_map.mp hx
  refine ⟨fun hcmp => ?_, value, rfl⟩
  rw [aluResult_comparison ((opcode_div_four w).trans hcmp)] at hvalue
  cases hvalue

theorem mem_loadStoreWrites {mem : Memory} {address rdValue : BitVec 32}
    (hx : x ∈ loadStoreWrites h mem address rdValue (getBit w 20) (getBit w 22) (rd w)) :
    w.getLsbD 20 = true ∧ (∃ value, x = .reg (rd w) value) ∨
      w.getLsbD 20 = false ∧ w.getLsbD 22 = false ∧ x = .word address rdValue ∨
      w.getLsbD 20 = false ∧ w.getLsbD 22 = true ∧ ∃ value, x = .byte address value := by
  unfold loadStoreWrites at hx
  simp only [getBit_eq_zero, ne_eq, Bool.not_eq_false] at hx
  split at hx
  · rename_i hbits
    exact .inr (.inl ⟨hbits.1, hbits.2, List.mem_singleton.mp hx⟩)
  · split at hx
    · rename_i hbits
      exact .inr (.inr ⟨hbits.1, hbits.2, _, List.mem_singleton.mp hx⟩)
    · -- neither store, so the L bit is set
      rename_i hword hbyte
      have hload : w.getLsbD 20 = true := by
        cases h20 : w.getLsbD 20 with
        | true => rfl
        | false =>
            cases h22 : w.getLsbD 22 with
            | true => exact absurd ⟨h20, h22⟩ hbyte
            | false => exact absurd ⟨h20, h22⟩ hword
      split at hx <;> exact .inl ⟨hload, _, List.mem_singleton.mp hx⟩

theorem mem_branchWrites (hx : x ∈ branchWrites w c) :
    (∃ value, x = .reg 15 value) ∨ w.getLsbD 24 = true ∧ ∃ value, x = .reg 14 value := by
  unfold branchWrites at hx
  simp only [getBit_eq_zero] at hx
  split at hx
  · exact .inl ⟨_, List.mem_singleton.mp hx⟩
  · rename_i hbit
    rcases List.mem_pair.mp hx with rfl | rfl
    · exact .inr ⟨eq_true_of_ne_false hbit, _, rfl⟩
    · exact .inl ⟨_, rfl⟩

/-- Every register write of a word is one its class allows. -/
theorem executedWrites_regs (hx : x ∈ executedWrites h u w c) {r : Nat} (hr : r ∈ x.regs) :
    MayWriteReg w r := by
  rw [executedWrites_of_class] at hx
  -- data processing, load or store, branch; the other classes write nothing
  split at hx
  · rename_i hclass
    obtain ⟨hcmp, value, rfl⟩ := mem_dataProcessingWrites hx
    exact .inl ⟨List.mem_singleton.mp hr, .inl ⟨hclass, hcmp⟩⟩
  · rename_i hclass
    rcases mem_loadStoreWrites hx with ⟨hload, value, rfl⟩ | ⟨_, _, rfl⟩ | ⟨_, _, value, rfl⟩
    · exact .inl ⟨List.mem_singleton.mp hr, .inr ⟨hclass, hload⟩⟩
    · cases hr
    · cases hr
  · rename_i hclass
    rcases mem_branchWrites hx with ⟨value, rfl⟩ | ⟨hlink, value, rfl⟩
    · exact .inr (.inl ⟨List.mem_singleton.mp hr, hclass⟩)
    · exact .inr (.inr ⟨List.mem_singleton.mp hr, hclass, hlink⟩)
  · cases hx

/-- Every memory write of a word is one its class allows. -/
theorem executedWrites_cells (hx : x ∈ executedWrites h u w c) {i : Nat} (hi : i ∈ x.cells) :
    MayWriteCell h w i := by
  rw [executedWrites_of_class] at hx
  -- only the two kinds of store cover memory cells
  split at hx
  · obtain ⟨_, value, rfl⟩ := mem_dataProcessingWrites hx
    cases hi
  · rename_i hclass
    rcases mem_loadStoreWrites hx with ⟨_, value, rfl⟩ | ⟨h20, h22, rfl⟩ | ⟨h20, h22, value, rfl⟩
    · cases hi
    · exact .inl ⟨⟨hclass, h20, h22⟩, hi⟩
    · exact .inr ⟨⟨hclass, h20, h22⟩, hi⟩
  · rcases mem_branchWrites hx with ⟨value, rfl⟩ | ⟨_, value, rfl⟩ <;> cases hi
  · cases hx

theorem MayWriteReg.lt {r : Nat} (hr : MayWriteReg w r) : r < 16 := by
  rcases hr with ⟨rfl, _⟩ | ⟨rfl, _⟩ | ⟨rfl, _⟩
  · exact rd_lt w
  · decide
  · decide

/-- A comparison writes no register. -/
theorem not_mayWriteReg_comparison (hclass : classOf w = .dataProcessing) (hcmp : IsComparison w)
    (r : Nat) : ¬ MayWriteReg w r := by
  rintro (⟨_, ⟨_, hnot⟩ | ⟨hload, _⟩⟩ | ⟨_, hbranch⟩ | ⟨_, hbranch, _⟩)
  · exact hnot hcmp
  · rw [hclass] at hload; cases hload
  · rw [hclass] at hbranch; cases hbranch
  · rw [hclass] at hbranch; cases hbranch

/-! ## The frame of a step -/

theorem mem_stepWrites (hx : x ∈ stepWrites h u c) :
    x ∈ executedWrites h u c.fetchedWord c.fetched := by
  unfold stepWrites at hx
  split at hx
  · exact hx
  · cases hx

theorem stepState_reg_fetched {r : Nat} (hr : ¬ MayWriteReg c.fetchedWord r) :
    (stepState h u c).reg.rData r = c.fetched.reg.rData r :=
  applyWrites_keeps (fun c => c.reg.rData r) (fun _ hx c => Write.apply_reg
    (fun hmem => hr (executedWrites_regs (mem_stepWrites hx) hmem)) c) c.fetched

theorem stepState_reg {r : Nat} (hpc : r ≠ 15) (hr : ¬ MayWriteReg c.fetchedWord r) :
    (stepState h u c).reg.rData r = c.reg.rData r :=
  (stepState_reg_fetched hr).trans (c.fetched_of_ne hpc)

theorem stepState_pc (hr : ¬ MayWriteReg c.fetchedWord 15) :
    (stepState h u c).pc = c.fetchAddress + 4 :=
  (stepState_reg_fetched hr).trans c.fetched_pc

/-- The status registers are never written. -/
theorem stepState_status {r : Nat} (hr : 16 ≤ r) :
    (stepState h u c).reg.rData r = c.reg.rData r :=
  stepState_reg (by omega) fun hmay => absurd hmay.lt (Nat.not_lt.mpr hr)

theorem stepState_cpsr : (stepState h u c).cpsr = c.cpsr := stepState_status (Nat.le_refl 16)

theorem stepState_cell {i : Nat} (hi : ¬ MayWriteCell h c.fetchedWord i) :
    (stepState h u c).mem.address i = c.mem.address i :=
  applyWrites_keeps (fun c => c.mem.address i) (fun _ hx c => Write.apply_cell
    (fun hmem => hi (executedWrites_cells (mem_stepWrites hx) hmem)) c) c.fetched

theorem stepState_size : (stepState h u c).mem.size = c.mem.size :=
  applyWrites_keeps (fun c => c.mem.size) (fun x _ c => x.apply_size c) c.fetched

theorem stepState_isBigEndian : (stepState h u c).mem.isBigEndian = c.mem.isBigEndian :=
  applyWrites_keeps (fun c => c.mem.isBigEndian) (fun x _ c => x.apply_isBigEndian c) c.fetched

theorem stepState_cycleCount : (stepState h u c).cycleCount = c.cycleCount + 1 :=
  applyWrites_keeps (fun c => c.cycleCount) (fun x _ c => x.apply_cycleCount c) c.fetched

end Armator
