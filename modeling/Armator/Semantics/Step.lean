import Armator.Arch.Encoding
import Armator.Semantics.ByteMemory
import Armator.Semantics.Writes

set_option autoImplicit false

/-! # What one step fetches, executes and shows

The vocabulary in which the laws are stated: the instruction word at the pc, its class, and
the projections of a step's events. Every lemma here follows from `armStep_runs`.
-/

namespace Armator

open Logged Arch

/-! ## The fetched word -/

def ArmCore.pc (c : ArmCore) : BitVec 32 := c.reg.rData 15

/-- The pc is word aligned. -/
def ArmCore.Aligned (c : ArmCore) : Prop := c.pc.toNat % 4 = 0

instance (c : ArmCore) : Decidable c.Aligned := inferInstanceAs (Decidable (_ = _))

/-- The word at the pc is inside the memory. -/
def ArmCore.InBounds (c : ArmCore) : Prop := c.mem.Inside c.fetchAddress 4

instance (c : ArmCore) : Decidable c.InBounds := inferInstanceAs (Decidable (_ ≤ _))

/-- The word stored at `address`, in the byte order of the memory. -/
def Memory.wordAt (mem : Memory) (address : BitVec 32) : BitVec 32 :=
  BitVec.ofNat 32 (mem.joined address 4)

/-- The instruction word at the pc. -/
def ArmCore.word (c : ArmCore) : BitVec 32 := c.mem.wordAt c.fetchAddress

/-- The value an instruction should read from a register: the pc is its address plus 8. -/
def ArmCore.operand (c : ArmCore) (r : Nat) : BitVec 32 :=
  if r = 15 then c.fetchAddress + 8 else c.reg.rData r

def ArmCore.flags (c : ArmCore) : Flags := Flags.ofCpsr c.cpsr

/-- The mask of the pc reads clears bit 1. -/
theorem mask_getLsbD {i : Nat} (hi : i < 32) :
    (0xFFFFFFFD : BitVec 32).getLsbD i = decide (i ≠ 1) := by
  have hall : ∀ i : Fin 32, (0xFFFFFFFD : BitVec 32).getLsbD i = decide (i.val ≠ 1) := by decide
  exact hall ⟨i, hi⟩

theorem and_mask_of_clear {x : BitVec 32} (h : x.getLsbD 1 = false) : x &&& 0xFFFFFFFD = x := by
  apply BitVec.eq_of_getLsbD_eq
  intro i hi
  rw [BitVec.getLsbD_and, mask_getLsbD hi]
  by_cases h1 : i = 1
  · subst h1; rw [h, Bool.false_and]
  · rw [decide_eq_true h1, Bool.and_true]

theorem getLsbD_one (x : BitVec 32) : x.getLsbD 1 = decide (x.toNat / 2 % 2 = 1) := by
  rw [← BitVec.testBit_toNat, Nat.testBit_eq_decide_div_mod_eq, pow_one]

theorem and_mask_of_aligned {x : BitVec 32} (h : x.toNat % 4 = 0) : x &&& 0xFFFFFFFD = x := by
  refine and_mask_of_clear ?_
  rw [getLsbD_one, decide_eq_false_iff_not]
  omega

theorem ArmCore.fetchAddress_eq (c : ArmCore) :
    c.fetchAddress = ((c.pc + 4) &&& 0xFFFFFFFD) - 4 := rfl

theorem and_mask_of_set {x : BitVec 32} (h : x.getLsbD 1 = true) : (x &&& 0xFFFFFFFD) + 2 = x := by
  have hbit : ∀ i : Fin 32, (2 : BitVec 32).getLsbD i = decide (i.val = 1) := by decide
  have hapart : (x &&& 0xFFFFFFFD) &&& 2 = 0 := by
    rw [BitVec.and_assoc]
    exact BitVec.and_zero
  rw [BitVec.add_eq_or_of_and_eq_zero _ _ hapart]
  apply BitVec.eq_of_getLsbD_eq
  intro i hi
  rw [BitVec.getLsbD_or, BitVec.getLsbD_and, mask_getLsbD hi, hbit ⟨i, hi⟩]
  by_cases h1 : i = 1
  · subst h1; rw [h]; rfl
  · rw [decide_eq_true h1, decide_eq_false h1, Bool.and_true, Bool.or_false]

/-- The bias of 4 does not touch the bit that is masked out. -/
theorem add_four_and_mask (x : BitVec 32) : (x + 4) &&& 0xFFFFFFFD = (x &&& 0xFFFFFFFD) + 4 := by
  have hbit : (x + 4).getLsbD 1 = x.getLsbD 1 := by
    rw [getLsbD_one, getLsbD_one, BitVec.toNat_add, show (4 : BitVec 32).toNat = 4 from rfl]
    congr 1
    rw [eq_iff_iff]
    omega
  cases h : x.getLsbD 1 with
  | false => rw [and_mask_of_clear h, and_mask_of_clear (hbit.trans h)]
  | true =>
      have hsum : ((x + 4) &&& 0xFFFFFFFD) + 2 = (x &&& 0xFFFFFFFD) + 4 + 2 := by
        rw [and_mask_of_set (hbit.trans h), add_right_comm, and_mask_of_set h]
      exact add_right_cancel hsum

/-- The fetch reads at the pc without its bit 1. -/
theorem ArmCore.fetchAddress_eq_mask (c : ArmCore) : c.fetchAddress = c.pc &&& 0xFFFFFFFD := by
  rw [fetchAddress_eq, add_four_and_mask, BitVec.add_sub_cancel]

/-- What an instruction reads from a register is what it should read: the bit that the second
mask clears is clear since the first. -/
theorem ArmCore.regValue_fetched_eq (c : ArmCore) (r : Nat) :
    c.fetched.regValue r = c.operand r := by
  by_cases hr : r = 15
  · subst hr
    have hclear : c.fetchAddress &&& 0xFFFFFFFD = c.fetchAddress := by
      rw [c.fetchAddress_eq_mask, BitVec.and_assoc, BitVec.and_self]
    calc c.fetched.regValue 15 = (c.fetchAddress + 4 + 4) &&& 0xFFFFFFFD := by
          rw [regValue, if_pos rfl, c.fetched_pc]
      _ = c.fetchAddress + 4 + 4 := by rw [add_four_and_mask, add_four_and_mask, hclear]
      _ = c.operand 15 := by rw [BitVec.add_assoc]; rfl
  · rw [regValue, operand, if_neg hr, if_neg hr, c.fetched_of_ne hr]

/-- From an aligned pc the fetch reads the word at the pc. -/
theorem ArmCore.Aligned.fetchAddress {c : ArmCore} (h : c.Aligned) : c.fetchAddress = c.pc := by
  rw [fetchAddress_eq_mask, and_mask_of_aligned h]

/-- The fetch reads address 0 from two values of the pc: bit 1 is masked out. -/
theorem ArmCore.fetchAddress_eq_zero {c : ArmCore} :
    c.fetchAddress = 0 ↔ c.pc = 0 ∨ c.pc = 2 := by
  rw [fetchAddress_eq_mask]
  constructor
  · intro hzero
    cases hbit : c.pc.getLsbD 1 with
    | false =>
        left
        rw [← hzero, and_mask_of_clear hbit]
    | true =>
        right
        rw [← and_mask_of_set hbit, hzero]
        rfl
  · rintro (hpc | hpc) <;> rw [hpc] <;> rfl

theorem memoryReadWord_wordAt {mem : Memory} {address : BitVec 32}
    (h : address.toNat ≤ mem.size) (value : BitVec 32) :
    (memoryReadWord mem address value).2 = mem.wordAt address := by
  rw [Memory.wordAt, ← memoryReadWord_value h value, BitVec.ofNat_toNat, BitVec.setWidth_eq]

/-- What the dispatcher decodes is the word at the pc. -/
theorem ArmCore.InBounds.fetchedWord {c : ArmCore} (h : c.InBounds) :
    c.fetchedWord = c.word := by
  have hguard := Memory.Inside.le h
  rw [ArmCore.fetchedWord, ← Memory.wordResult_eq _ _ 0, memoryReadWord_result hguard,
    memoryReadWord_wordAt hguard, ArmCore.word]

/-- A state about to execute `w`, at address 0 of a little endian memory of 64 bytes, with the
registers `r` except for the pc. -/
def executing (w : BitVec 32) (r : Nat → BitVec 32) : ArmCore where
  cycleCount := 0
  reg := { rData := fun i => if i = 15 then 0 else r i }
  mem := (memoryWriteWord (memoryCreate (some fun _ => 0) 64 0) 0 w).2

/-! ## Fields and classes -/

theorem getBits_toNat_field (w : BitVec 32) {hi lo : Nat} (h : hi - lo < 32) :
    (getBits w hi lo).toNat = field w hi lo :=
  getBits_toNat w h

theorem getBits_eq_ofNat (w : BitVec 32) {hi lo : Nat} (h : hi - lo < 32) :
    getBits w hi lo = BitVec.ofNat 32 (field w hi lo) := by
  apply BitVec.eq_of_toNat_eq
  have hlt : field w hi lo < 2 ^ 32 :=
    lt_of_lt_of_le (field_lt w hi lo) (Nat.pow_le_pow_right (by decide) (by omega))
  rw [getBits_toNat_field w h, BitVec.toNat_ofNat, Nat.mod_eq_of_lt hlt]

theorem rnField_eq (w : BitVec 32) : rnField w = rn w := getBits_toNat_field w (by decide)
theorem rdField_eq (w : BitVec 32) : rdField w = rd w := getBits_toNat_field w (by decide)

theorem isMiscellaneous_iff (w : BitVec 32) :
    isMiscellaneous w ↔ field w 24 23 = 2 ∧ w.getLsbD 20 = false := by
  rw [isMiscellaneous, getBit_eq_zero, ← BitVec.toNat_inj, getBits_toNat_field w (by decide)]
  rfl

/-- The writes of a word by its class. The classes left out write nothing. -/
theorem executedWrites_of_class (h : Host) (u : Locals) (w : BitVec 32) (c : ArmCore) :
    executedWrites h u w c = match classOf w with
      | .dataProcessing => dataProcessingWrites (opcode w) (c.regValue (rn w))
          (operandValue h u w c) (getBit c.cpsr C) (rd w)
      | .loadStore => loadStoreWrites h c.mem (armLoadStore h w) (c.regValue (rd w))
          (getBit w 20) (getBit w 22) (rd w)
      | .branch => branchWrites w c
      | _ => [] := by
  unfold executedWrites classOf opcode
  rw [getBits_toNat_field w (by decide), getBits_toNat_field w (by decide), rnField_eq, rdField_eq]
  generalize field w 27 26 = bits26_27
  -- what is left to compare is the bit each dispatch arm tests
  match bits26_27 with
  | 0 =>
      by_cases hmisc : isMiscellaneous w
      · simp only [if_pos hmisc, if_pos ((isMiscellaneous_iff w).mp hmisc)]
      · simp only [if_neg hmisc, if_neg fun hn => hmisc ((isMiscellaneous_iff w).mpr hn)]
  | 1 => rfl
  | 2 =>
      cases hbit : w.getLsbD 25 with
      | false => simp only [if_pos (getBit_eq_zero.mpr hbit), Bool.false_eq_true, if_false]
      | true => simp only [if_neg (getBit_ne_zero.mpr hbit), if_true]
  | _ + 3 => cases w.getLsbD 25 <;> cases w.getLsbD 24 <;> rfl

/-- The operand of the register form: `bits4_11` decides whether Rm is shifted. -/
theorem operandValue_register (h : Host) (u : Locals) {w : BitVec 32} (c : ArmCore)
    (h25 : w.getLsbD 25 = false) :
    operandValue h u w c = if u.bits4_11 = 0 then c.regValue (rm w)
      else (shifterResult h u.shiftImm w (c.regValue (rm w)) (getBit c.cpsr C)).1 := by
  unfold operandValue dataProcessingOperand
  rw [if_pos (getBit_eq_zero.mpr h25)]
  by_cases h0 : u.bits4_11 = 0
  · rw [if_pos h0, if_pos h0]
    have hread : Runs visible (do
        let operand2 ← armReadRegister (getBits w 3 0).toNat
        return (operand2, getBit (← armReadCpsr) C)) c
        (c.regValue (getBits w 3 0).toNat, getBit c.cpsr C) c [] :=
      (armReadRegister_runs _ c).quietBind (returnCarryFlag_runs _ c)
    rw [hread.value, getBits_toNat_field w (by decide), ← rm]
  · rw [if_neg h0, if_neg h0, (shiftedRegisterOperand_runs h u w c).value,
      getBits_toNat_field w (by decide), ← rm]

/-- The operand of the immediate form needs no local. -/
theorem operandValue_rotated (h : Host) (u : Locals) {w : BitVec 32} (c : ArmCore)
    (h25 : w.getLsbD 25 = true) :
    operandValue h u w c = ror h (getBits w 7 0) ((getBits w 11 8 * 2).setWidth 8) := by
  have hne : getBit w 25 ≠ 0 := getBit_ne_zero.mpr h25
  unfold operandValue dataProcessingOperand
  rw [if_neg hne]
  by_cases h0 : getBits w 11 8 = 0
  · rw [if_pos h0]
    rfl
  · rw [if_neg h0]
    rfl

/-- The data accesses of a word by its class. -/
theorem executedAccesses_of_class (h : Host) (u : Locals) (w : BitVec 32) (c : ArmCore) :
    executedAccesses h u w c =
      if classOf w = .loadStore then
        loadStoreAccesses u c (armLoadStore h w) (c.regValue (rd w)) (getBit w 20) (getBit w 22)
      else [] := by
  unfold executedAccesses classOf
  rw [getBits_toNat_field w (by decide), rdField_eq]
  generalize field w 27 26 = bits26_27
  match bits26_27 with
  | 0 =>
      by_cases hmisc : field w 24 23 = 2 ∧ w.getLsbD 20 = false
      · simp only [if_pos hmisc]; rfl
      · simp only [if_neg hmisc]; rfl
  | 1 => rfl
  | 2 => cases w.getLsbD 25 <;> rfl
  | _ + 3 => cases w.getLsbD 25 <;> cases w.getLsbD 24 <;> rfl

theorem conditionOf_eq (u : Locals) (w : BitVec 32) (c : ArmCore) :
    conditionOf u w c = match Condition.ofField (condField w) with
      | none => -1
      | some k => if tested c.flags k then 1 else u.conditionPassed := by
  have hfield : ((getBits w 31 28).setWidth 8).toNat = condField w := by
    have hlt : field w 31 28 < 16 := field_lt w 31 28
    rw [BitVec.toNat_setWidth, getBits_toNat_field w (by decide), condField,
      Nat.mod_eq_of_lt (by omega)]
  rw [conditionOf, conditionValue, hfield]
  rfl

theorem conditionOf_al (u : Locals) {w : BitVec 32} (h : condField w = AL) (c : ArmCore) :
    conditionOf u w c ≠ 0 := by
  rw [conditionOf_eq, h]
  exact Int.negSucc_ne_zero 0

/-- The code finds the condition of `w` to hold, without falling off `ConditionPassed`. -/
def Decided (w : BitVec 32) (c : ArmCore) : Prop :=
  ∀ k, Condition.ofField (condField w) = some k → tested c.flags k = true

/-- A word is executed when its condition is found to hold, or when the indeterminate value
of `ConditionPassed` happens not to be 0. -/
theorem conditionOf_ne_zero {u : Locals} {w : BitVec 32} {c : ArmCore} :
    conditionOf u w c ≠ 0 ↔ Decided w c ∨ u.conditionPassed ≠ 0 := by
  rw [conditionOf_eq, Decided]
  cases hk : Condition.ofField (condField w) with
  | none => exact iff_of_true (Int.negSucc_ne_zero 0) (.inl fun k hk' => by cases hk')
  | some k =>
      -- a failed test leaves the indeterminate value to decide
      by_cases htest : tested c.flags k = true
      · refine iff_of_true ?_ (.inl fun k' hk' => ?_)
        · simp [htest]
        · cases hk'
          exact htest
      · have hnot : ¬ ∀ k', some k = some k' → tested c.flags k' = true :=
          fun hall => htest (hall k rfl)
        simp [htest]

/-! ## Steps -/

theorem armStep_state (h : Host) (u : Locals) (c : ArmCore) :
    (armStep h u c).state = stepState h u c := (armStep_runs h u c).state

theorem armStep_value (h : Host) (u : Locals) (c : ArmCore) : (armStep h u c).value = 0 :=
  (armStep_runs h u c).value

theorem stepState_of_inBounds (h : Host) (u : Locals) {c : ArmCore} (hin : c.InBounds) :
    stepState h u c =
      applyWrites (if conditionOf u c.word c ≠ 0 then executedWrites h u c.word c.fetched else [])
        c.fetched := by
  rw [stepState, stepWrites, hin.fetchedWord]

theorem stepState_executed (h : Host) {u : Locals} {c : ArmCore} (hin : c.InBounds)
    (hexec : Decided c.word c ∨ u.conditionPassed ≠ 0) :
    stepState h u c = applyWrites (executedWrites h u c.word c.fetched) c.fetched := by
  rw [stepState_of_inBounds h u hin, if_pos (conditionOf_ne_zero.mpr hexec)]

theorem stepState_skipped (h : Host) {u : Locals} {c : ArmCore} (hin : c.InBounds)
    (hskip : ¬ (Decided c.word c ∨ u.conditionPassed ≠ 0)) : stepState h u c = c.fetched := by
  rw [stepState_of_inBounds h u hin, if_neg fun hn => hskip (conditionOf_ne_zero.mp hn)]
  rfl

/-! ## Observed events -/

/-- The address of an instruction fetch. -/
def Event.fetchAddress? : Event → Option (BitVec 32)
  | .memory _ _ _ .opcodeFetch address _ => some address
  | _ => none

/-- The address of a data access. -/
def Event.dataAddress? : Event → Option (BitVec 32)
  | .memory _ _ _ .otherAccess address _ => some address
  | _ => none

/-- The argument of a call of `arm_exception`. -/
def Event.exception? : Event → Option (BitVec 8)
  | .exception e => some e
  | _ => none

/-- What is observed of memory accesses and exceptions does not need the register traces. -/
theorem filterMap_visible {α : Type} (f : Event → Option α)
    (hf : ∀ cycle type reg mode value, f (.register cycle type reg mode value) = none)
    (es : List Event) : (es.filter visible).filterMap f = es.filterMap f := by
  rw [List.filterMap_filter]
  congr 1
  funext e
  cases e with
  | register cycle type reg mode value => simp [visible, hf]
  | memory => rfl
  | exception => rfl

/-- A step accesses data at the address `arm_load_store` returns, and nowhere else. -/
theorem mem_stepAccesses {h : Host} {u : Locals} {c : ArmCore} {e : Event}
    (he : e ∈ stepAccesses h u c) :
    ∃ type size value, e = .memory c.fetched.cycleCount type size .otherAccess
      (armLoadStore h c.fetchedWord) value := by
  unfold stepAccesses at he
  split at he
  · rw [executedAccesses_of_class] at he
    split at he
    · unfold loadStoreAccesses at he
      split at he
      · rcases List.mem_pair.mp he with rfl | rfl <;> exact ⟨_, _, _, rfl⟩
      · split at he
        · rcases List.mem_pair.mp he with rfl | rfl <;> exact ⟨_, _, _, rfl⟩
        · split at he <;> rw [List.mem_singleton.mp he] <;> exact ⟨_, _, _, rfl⟩
    · cases he
  · cases he

/-- What looks at no data access finds nothing among the data accesses. -/
theorem filterMap_stepAccesses {β : Type} {f : Event → Option β} (h : Host) (u : Locals)
    (c : ArmCore) (hf : ∀ cycle type size address value,
      f (.memory cycle type size .otherAccess address value) = none) :
    (stepAccesses h u c).filterMap f = [] := by
  rw [List.filterMap_eq_nil_iff]
  intro e he
  obtain ⟨type, size, value, rfl⟩ := mem_stepAccesses he
  exact hf _ _ _ _ _

/-- What looks at no register and no data access of a step finds at most the fetch. -/
theorem filterMap_armStep {β : Type} {f : Event → Option β} (h : Host) (u : Locals) (c : ArmCore)
    (hregister : ∀ cycle type reg mode value, f (.register cycle type reg mode value) = none)
    (hdata : ∀ cycle type size address value,
      f (.memory cycle type size .otherAccess address value) = none) :
    (armStep h u c).events.filterMap f = [fetchEvent u c].filterMap f := by
  have hnone := filterMap_stepAccesses h u c hdata
  rw [← filterMap_visible f hregister, (armStep_runs h u c).events, ← List.singleton_append,
    List.filterMap_append, hnone, List.append_nil]

/-- A step fetches once. -/
theorem armStep_fetchAddresses (h : Host) (u : Locals) (c : ArmCore) :
    (armStep h u c).events.filterMap Event.fetchAddress? = [c.fetchAddress] :=
  filterMap_armStep h u c (fun _ _ _ _ _ => rfl) fun _ _ _ _ _ => rfl

/-- The data addresses of a step. -/
theorem armStep_dataAddresses (h : Host) (u : Locals) (c : ArmCore) :
    (armStep h u c).events.filterMap Event.dataAddress?
      = (stepAccesses h u c).map fun _ => armLoadStore h c.fetchedWord := by
  rw [← filterMap_visible _ (fun _ _ _ _ _ => rfl), (armStep_runs h u c).events,
    List.filterMap_cons]
  rw [← List.filterMap_eq_map]
  refine List.filterMap_congr fun e he => ?_
  obtain ⟨type, size, value, rfl⟩ := mem_stepAccesses he
  rfl

end Armator
