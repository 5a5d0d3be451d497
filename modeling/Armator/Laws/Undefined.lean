import Armator.Laws.Address
import Armator.Laws.LoadStore
import Armator.Laws.RegisterShift
import Armator.Semantics.Effect

set_option autoImplicit false

/-! # Undefined words

The dispatcher looks at bits 7 and 4 of no word. The words they make undefined are executed as
the data-processing instructions, loads and stores they would be otherwise (`undefinedLaw_iff`).
-/

namespace Armator

open Arch

/-- The multiply and extra load/store space, and the undefined words among loads and stores. -/
def IsUndefined (w : BitVec 32) : Prop :=
  field w 27 25 = 0 ∧ w.getLsbD 7 = true ∧ w.getLsbD 4 = true ∨
    field w 27 25 = 3 ∧ w.getLsbD 4 = true

instance (w : BitVec 32) : Decidable (IsUndefined w) := inferInstanceAs (Decidable (_ ∨ _))

/-- The step changes nothing but the pc. -/
def UndefinedLaw (h : Host) (u : Locals) (c : ArmCore) : Prop :=
  AgreeOn (· ≠ 15) c (armStep h u c).state

/-! ## What the word at the pc is taken for -/

/-- Its second operand: Rm, or Rm shifted by the number of Rs. -/
def ArmCore.registerOperand (u : Locals) (c : ArmCore) : BitVec 32 :=
  if u.bits4_11 = 0 then c.operand (rm c.word)
  else (registerShift (shiftKind c.word) (rs c.word) c.flags.c (c.operand (rm c.word))).1

/-- The datum it loads, all ones above the size of the memory. -/
def ArmCore.loadDatum (h : Host) (c : ArmCore) : BitVec 32 :=
  let address := fieldAddress c.word
  if c.word.getLsbD 22 then
    if address.toNat ≤ c.mem.size then (c.mem.address address.toNat).setWidth 32 else 0xFF
  else
    ror h (if address.toNat ≤ c.mem.size then c.mem.wordAt address else 0xFFFFFFFF)
      (BitVec.ofNat 8 (8 * (address.toNat % 4)))

/-- What the word at the pc would store, taken for what the dispatcher takes it for, is there
already: the result or the datum in Rd, or the bytes of Rd in the memory. The pc does not count,
as every step writes it. A comparison and a miscellaneous word store nothing. -/
def StoresNothingNew (h : Host) (u : Locals) (c : ArmCore) : Prop :=
  match classOf c.word with
  | .dataProcessing =>
    ∀ value ∈ aluResult (opcode c.word) (c.operand (rn c.word)) (c.registerOperand u)
      (getBit c.cpsr C), rd c.word ≠ 15 → c.reg.rData (rd c.word) = value
  | .loadStore =>
    if c.word.getLsbD 20 then rd c.word ≠ 15 → c.reg.rData (rd c.word) = c.loadDatum h
    else if c.word.getLsbD 22 then
      c.mem.address (fieldAddress c.word).toNat = (c.operand (rd c.word)).setWidth 8
    else
      (covered (fieldAddress c.word) 4).map c.mem.address
        = inOrder (c.mem.isBigEndian = 1) (split 4 (c.operand (rd c.word)).toNat)
  | _ => True

theorem IsUndefined.register {w : BitVec 32} (hw : IsUndefined w)
    (hclass : classOf w = .dataProcessing) : w.getLsbD 25 = false ∧ w.getLsbD 4 = true := by
  rcases hw with ⟨hfield, -, h4⟩ | ⟨hfield, -⟩
  · refine ⟨?_, h4⟩
    rw [← BitVec.testBit_toNat, Nat.testBit_eq_decide_div_mod_eq, decide_eq_false_iff_not]
    simp only [field] at hfield
    omega
  · have hload : field w 27 26 = 1 := by
      simp only [field] at hfield ⊢
      omega
    rw [classOf, hload] at hclass
    cases hclass

theorem IsUndefined.class_ne_branch {w : BitVec 32} (hw : IsUndefined w) :
    classOf w ≠ .branch := by
  intro hclass
  have hfield : field w 27 26 = 0 ∨ field w 27 26 = 1 := by
    rcases hw with ⟨hfield, -⟩ | ⟨hfield, -⟩ <;> simp only [field] at hfield ⊢ <;> omega
  rcases hfield with hfield | hfield
  · have hcases : classOf w = if field w 24 23 = 2 ∧ w.getLsbD 20 = false then .miscellaneous
        else .dataProcessing := by
      simp only [classOf, hfield]
    rw [hcases] at hclass
    split at hclass <;> cases hclass
  · rw [classOf, hfield] at hclass
    cases hclass

theorem agreeOn_fetched {c c' : ArmCore} :
    AgreeOn (· ≠ 15) c.fetched c' ↔ AgreeOn (· ≠ 15) c c' := by
  constructor
  · rintro ⟨hreg, hmem⟩
    exact ⟨fun r hr => (hreg r hr).trans (c.fetched_of_ne hr), hmem⟩
  · rintro ⟨hreg, hmem⟩
    exact ⟨fun r hr => (hreg r hr).trans (c.fetched_of_ne hr).symm, hmem⟩

section

variable {h : Host} {u : Locals} {c : ArmCore}

theorem operandValue_registerOperand (h25 : c.word.getLsbD 25 = false)
    (h4 : c.word.getLsbD 4 = true) :
    operandValue h u c.word c.fetched = c.registerOperand u := by
  have hcarry : getBit c.fetched.cpsr C = flagWord c.flags.c := getBit_eq_ofBool c.cpsr 29
  rw [operandValue_register h u c.fetched h25, c.regValue_fetched_eq, hcarry, shifterResult_rs h4]
  rfl

theorem loadDatum_byte (h22 : c.word.getLsbD 22 = true) :
    (c.mem.byteResult (fieldAddress c.word)).setWidth 32 = c.loadDatum h := by
  rw [ArmCore.loadDatum, if_pos h22, Memory.byteResult, memoryReadByte]
  by_cases hguard : (fieldAddress c.word).toNat ≤ c.mem.size
  · rw [if_pos hguard, if_pos hguard]
    dsimp only
    rw [BitVec.ofInt_natCast, BitVec.ofNat_toNat, BitVec.setWidth_eq]
    rfl
  · rw [if_neg hguard, if_neg hguard]
    rfl

/-- What LDR writes to Rd; bit 0 of a pc is cleared. -/
theorem loadDatum_word (h22 : c.word.getLsbD 22 = false) :
    loadedWord h c.mem (fieldAddress c.word) (rd c.word)
      = if rd c.word = 15 then c.loadDatum h &&& 0xFFFFFFFE else c.loadDatum h := by
  have hamount : (8 * getBits (fieldAddress c.word) 1 0).setWidth 8
      = BitVec.ofNat 8 (8 * ((fieldAddress c.word).toNat % 4)) := by
    apply BitVec.eq_of_toNat_eq
    rw [rotation_toNat, BitVec.toNat_ofNat]
    omega
  have hdatum : c.mem.wordResult (fieldAddress c.word)
      = if (fieldAddress c.word).toNat ≤ c.mem.size then c.mem.wordAt (fieldAddress c.word)
        else 0xFFFFFFFF := by
    by_cases hguard : (fieldAddress c.word).toNat ≤ c.mem.size
    · rw [if_pos hguard, ← c.mem.wordResult_eq _ 0, memoryReadWord_result hguard,
        memoryReadWord_wordAt hguard]
    · rw [if_neg hguard, wordResult_of_failure hguard]
  rw [loadedWord, ArmCore.loadDatum, h22, hamount, hdatum]
  rfl

/-- The write of a load or store is idle exactly when its datum is there. -/
theorem loadStore_idle {observed : Nat → Prop} :
    (∀ x ∈ loadStoreWrites h c.mem (fieldAddress c.word) (c.operand (rd c.word))
        (getBit c.word 20) (getBit c.word 22) (rd c.word), x.Idle observed c.fetched) ↔
      if c.word.getLsbD 20 then observed (rd c.word) → c.fetched.reg.rData (rd c.word)
        = if rd c.word = 15 ∧ c.word.getLsbD 22 = false then c.loadDatum h &&& 0xFFFFFFFE
          else c.loadDatum h
      else if c.word.getLsbD 22 then
        c.mem.address (fieldAddress c.word).toNat = (c.operand (rd c.word)).setWidth 8
      else
        (covered (fieldAddress c.word) 4).map c.mem.address
          = inOrder (c.mem.isBigEndian = 1) (split 4 (c.operand (rd c.word)).toNat) := by
  rw [loadStoreWrites]
  -- the L and B bits, the first two arms are the stores
  cases h20 : c.word.getLsbD 20 with
  | false =>
      cases h22 : c.word.getLsbD 22 with
      | false =>
          rw [getBit_eq_of_getLsbD h20, getBit_eq_of_getLsbD h22]
          exact List.forall_mem_singleton.trans (memoryWrite_eq_self .word _ _ _)
      | true =>
          rw [getBit_eq_of_getLsbD h20, getBit_eq_of_getLsbD h22, getBits_byte]
          exact List.forall_mem_singleton.trans (memoryWriteByte_eq_self _ _ _)
  | true =>
      cases h22 : c.word.getLsbD 22 with
      | false =>
          rw [getBit_eq_of_getLsbD h20, getBit_eq_of_getLsbD h22]
          refine List.forall_mem_singleton.trans (forall_congr' fun _ => ?_)
          rw [loadDatum_word h22]
          simp
      | true =>
          rw [getBit_eq_of_getLsbD h20, getBit_eq_of_getLsbD h22]
          refine List.forall_mem_singleton.trans (forall_congr' fun _ => ?_)
          rw [loadDatum_byte (h := h) h22]
          simp

/-- The writes of the word are idle exactly when what they store is there. -/
theorem idle_iff_storesNothingNew (hw : IsUndefined c.word) :
    (∀ x ∈ executedWrites h u c.word c.fetched, x.Idle (· ≠ 15) c.fetched)
      ↔ StoresNothingNew h u c := by
  rw [executedWrites_of_class, StoresNothingNew]
  cases hclass : classOf c.word with
  | dataProcessing =>
      obtain ⟨h25, h4⟩ := hw.register hclass
      dsimp only
      rw [dataProcessingWrites, List.forall_mem_map, operandValue_registerOperand h25 h4,
        c.regValue_fetched_eq, c.fetched_cpsr]
      simp only [Option.mem_toList]
      refine forall₂_congr fun value _ => forall_congr' fun hrd => ?_
      rw [c.fetched_of_ne hrd]
  | loadStore =>
      dsimp only
      rw [armLoadStore_eq, c.regValue_fetched_eq, c.fetched_mem, loadStore_idle]
      split
      · refine forall_congr' fun hrd => ?_
        rw [c.fetched_of_ne hrd, if_neg fun hpc => hrd hpc.1]
      · rfl
  | branch => exact absurd hclass hw.class_ne_branch
  | _ => exact iff_of_true (fun x hx => by cases hx) trivial

end

/-- **An undefined word does nothing exactly when what it would store is there already.** -/
theorem undefinedLaw_iff (h : Host) (u : Locals) {c : ArmCore} (hin : c.InBounds)
    (hal : condField c.word = AL) (hw : IsUndefined c.word) :
    UndefinedLaw h u c ↔ StoresNothingNew h u c := by
  rw [UndefinedLaw, armStep_state, stepState_of_inBounds h u hin,
    if_pos (conditionOf_al u hal c), ← agreeOn_fetched, executedWrites_idle,
    idle_iff_storesNothingNew hw]

/-- `MUL r1, r2, r3` is `AND r1, r0, r2` in the code. -/
theorem undefinedLaw_iff_mul :
    UndefinedLaw Host.masked ⟨0, 0, 0, 0, 0, 0⟩ (executing 0xE0010392 fun _ => 0) ↔
      StoresNothingNew Host.masked ⟨0, 0, 0, 0, 0, 0⟩ (executing 0xE0010392 fun _ => 0) :=
  undefinedLaw_iff Host.masked ⟨0, 0, 0, 0, 0, 0⟩ (by decide) (by decide) (by decide)

/-- The breakpoint of gdb loads the byte at 0 into `r0`. -/
theorem not_undefinedLaw_breakpoint :
    ¬ UndefinedLaw Host.masked ⟨0, 0, 0, 0, 0, 0⟩ (executing 0xE7F000F0 fun _ => 0) := by
  intro hlaw
  exact absurd (hlaw.1 0 (by decide)) (by decide)

end Armator
