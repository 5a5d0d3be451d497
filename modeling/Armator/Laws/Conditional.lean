import Armator.Laws.Address
import Armator.Semantics.Effect

set_option autoImplicit false

/-! # The conditional execution law

A word whose condition does not hold should be skipped, and one whose condition holds should
do what it does under the condition AL.
-/

namespace Armator

open Arch

/-! ## Replacing the condition field -/

section

variable (h : Host) (u : Locals) (w : BitVec 32) (c : ArmCore)

theorem withAL_getLsbD {i : Nat} (hi : i < 28) : (withAL w).getLsbD i = w.getLsbD i := by
  have hall : ∀ i : Fin 28, (0x0FFFFFFF : BitVec 32).getLsbD i = true ∧
      (0xE0000000 : BitVec 32).getLsbD i = false := by decide
  have hmask : (0x0FFFFFFF : BitVec 32).getLsbD i = true := (hall ⟨i, hi⟩).1
  have hcond : (0xE0000000 : BitVec 32).getLsbD i = false := (hall ⟨i, hi⟩).2
  rw [withAL, BitVec.getLsbD_or, BitVec.getLsbD_and, hmask, hcond, Bool.and_true, Bool.or_false]

/-- Bit 29, which RRX takes for the carry flag, is set in AL. -/
theorem withAL_bit29 : (withAL w).getLsbD 29 = true := by
  have hmask : (0x0FFFFFFF : BitVec 32).getLsbD 29 = false := by decide
  have hcond : (0xE0000000 : BitVec 32).getLsbD 29 = true := by decide
  rw [withAL, BitVec.getLsbD_or, BitVec.getLsbD_and, hmask, hcond, Bool.and_false, Bool.false_or]

theorem getBits_withAL {hi lo : Nat} (hhi : hi < 28) (hlo : lo ≤ hi) :
    getBits (withAL w) hi lo = getBits w hi lo := by
  apply BitVec.eq_of_getLsbD_eq
  intro i _
  rw [getBits_getLsbD, getBits_getLsbD]
  by_cases hin : i < hi - lo + 1
  · rw [withAL_getLsbD w (by omega)]
  · rw [decide_eq_false hin, Bool.false_and, Bool.false_and]

theorem getBit_withAL {i : Nat} (hi : i < 28) : getBit (withAL w) i = getBit w i := by
  rw [getBit_eq_ofBool, getBit_eq_ofBool, withAL_getLsbD w hi]

theorem field_withAL {hi lo : Nat} (hhi : hi < 28) (hlo : lo ≤ hi) :
    field (withAL w) hi lo = field w hi lo := by
  rw [← getBits_toNat_field _ (by omega), ← getBits_toNat_field _ (by omega),
    getBits_withAL w hhi hlo]

theorem condField_withAL : condField (withAL w) = AL := by
  have hmask : withAL w >>> 28 = 14 := by
    apply BitVec.eq_of_getLsbD_eq
    intro i hi
    have hall : ∀ i : Fin 32, (0x0FFFFFFF : BitVec 32).getLsbD (28 + i) = false ∧
        (0xE0000000 : BitVec 32).getLsbD (28 + i) = (14 : BitVec 32).getLsbD i := by decide
    have hclear : (0x0FFFFFFF : BitVec 32).getLsbD (28 + i) = false := (hall ⟨i, hi⟩).1
    rw [BitVec.getLsbD_ushiftRight, withAL, BitVec.getLsbD_or, BitVec.getLsbD_and, hclear,
      Bool.and_false, Bool.false_or]
    exact (hall ⟨i, hi⟩).2
  have hnat := congrArg BitVec.toNat hmask
  rw [BitVec.toNat_ushiftRight, Nat.shiftRight_eq_div_pow] at hnat
  rw [condField, field, hnat]
  rfl

theorem classOf_withAL : classOf (withAL w) = classOf w := by
  unfold classOf
  rw [field_withAL w (by decide) (by decide), field_withAL w (by decide) (by decide),
    withAL_getLsbD w (by decide), withAL_getLsbD w (by decide), withAL_getLsbD w (by decide)]

theorem operandValue_withAL : operandValue h u (withAL w) c = operandValue h u w c := by
  unfold operandValue dataProcessingOperand shiftedRegisterOperand
  simp (disch := decide) only [getBits_withAL, getBit_withAL]

theorem branchWrites_withAL : branchWrites (withAL w) c = branchWrites w c := by
  unfold branchWrites branchTarget extend30
  simp (disch := decide) only [getBits_withAL, getBit_withAL]

/-! ## The one word that reads its condition field -/

/-- A load or store indexed by `r0` or `r1` with RRX, under a condition whose encoding has bit
1 clear: the index `arm_load_store` computes is 0, and 1 under AL. -/
def RrxIndexed : Prop :=
  classOf w = .loadStore ∧ w.getLsbD 25 = true ∧ shiftKind w = .ROR ∧ shiftAmount w = 0 ∧
    rm w < 2 ∧ w.getLsbD 29 = false

theorem fieldOffset_withAL
    (hrrx : ¬ (w.getLsbD 25 = true ∧ shiftKind w = .ROR ∧ shiftAmount w = 0 ∧
      rm w < 2 ∧ w.getLsbD 29 = false)) : fieldOffset (withAL w) = fieldOffset w := by
  have hrm : rm (withAL w) = rm w := field_withAL w (by decide) (by decide)
  have hkind : shiftKind (withAL w) = shiftKind w := by
    rw [shiftKind, field_withAL w (by decide) (by decide), shiftKind]
  have hamount : shiftAmount (withAL w) = shiftAmount w := field_withAL w (by decide) (by decide)
  have hoffset : offset (withAL w) (BitVec.ofNat 32) false = offset w (BitVec.ofNat 32) false := by
    rw [offset, offset, hrm, hkind, hamount, withAL_getLsbD w (by decide),
      field_withAL w (by decide) (by decide)]
  rw [fieldOffset, fieldOffset, hoffset, hrm, hkind, hamount, withAL_getLsbD w (by decide),
    withAL_bit29]
  by_cases hform : w.getLsbD 25 = true ∧ shiftKind w = .ROR ∧ shiftAmount w = 0
  · -- AL makes the index 1, so it was 1 before
    rw [if_pos hform, if_pos hform, if_pos (.inl rfl), if_pos]
    by_contra hnot
    rw [not_or, Bool.not_eq_true, Nat.not_le] at hnot
    exact hrrx ⟨hform.1, hform.2.1, hform.2.2, hnot.2, hnot.1⟩
  · rw [if_neg hform, if_neg hform]

/-- The transfer a load or store makes at a given address. -/
def transferAt (address : BitVec 32) : ArmCore :=
  applyWrites (loadStoreWrites h c.mem address (c.regValue (rd w)) (getBit w 20) (getBit w 22)
    (rd w)) c

theorem executedWrites_withAL (hrrx : ¬ RrxIndexed w) :
    executedWrites h u (withAL w) c = executedWrites h u w c := by
  have hrn : rn (withAL w) = rn w := field_withAL w (by decide) (by decide)
  have hrd : rd (withAL w) = rd w := field_withAL w (by decide) (by decide)
  have hop : opcode (withAL w) = opcode w := field_withAL w (by decide) (by decide)
  rw [executedWrites_of_class, executedWrites_of_class, classOf_withAL]
  split
  · rw [hop, hrn, hrd, operandValue_withAL]
  · rename_i hclass
    have hoffset := fieldOffset_withAL w fun hform => hrrx ⟨hclass, hform⟩
    rw [armLoadStore_eq, armLoadStore_eq, fieldAddress, fieldAddress, hoffset, hrn, hrd, displaced,
      displaced, withAL_getLsbD w (by decide), getBit_withAL w (by decide),
      getBit_withAL w (by decide)]
  · rw [branchWrites_withAL]
  · rfl

/-- Under AL the word has the effect it has now, unless its address moves to one where the
transfer differs. -/
theorem effect_withAL_iff :
    applyWrites (executedWrites h u w c) c = applyWrites (executedWrites h u (withAL w) c) c ↔
      (RrxIndexed w → transferAt h w c (fieldAddress w)
        = transferAt h w c (fieldAddress (withAL w))) := by
  by_cases hrrx : RrxIndexed w
  · have hrd : rd (withAL w) = rd w := field_withAL w (by decide) (by decide)
    have hclass : classOf w = .loadStore := hrrx.1
    rw [executedWrites_of_class, executedWrites_of_class, classOf_withAL, hclass,
      armLoadStore_eq, armLoadStore_eq, hrd, getBit_withAL w (by decide),
      getBit_withAL w (by decide)]
    exact ⟨fun heq _ => heq, fun heq => heq hrrx⟩
  · rw [executedWrites_withAL h u w c hrrx]
    exact iff_of_true rfl fun hn => absurd hn hrrx

end

/-! ## The law -/

/-- Nothing but `r15` and the cycle count changed, and `r15` went to the next word. -/
structure Skipped (c c' : ArmCore) : Prop where
  registers : ∀ r ≠ 15, c'.reg.rData r = c.reg.rData r
  memory : c'.mem = c.mem
  pc : c.Aligned → c'.pc = c.pc + 4

/-- The law for a word under the condition `k`. What a word does under AL is what follows the
fetch in `arm_execute_instruction`, run on that word. -/
structure ConditionalLaw (h : Host) (u : Locals) (c : ArmCore) (k : Condition) : Prop where
  fails : k.holds c.flags = false → Skipped c (armStep h u c).state
  holds : k.holds c.flags = true →
    (armStep h u c).state
        = (executeFetched h u (withAL c.word) (withAL c.word) c.fetched).state ∧
      (armStep h u c).value
        = (executeFetched h u (withAL c.word) (withAL c.word) c.fetched).value

/-- The code's test of `k` lets the word through. -/
def Passes (u : Locals) (c : ArmCore) (k : Condition) : Prop :=
  tested c.flags k = true ∨ u.conditionPassed ≠ 0

instance (u : Locals) (c : ArmCore) (k : Condition) : Decidable (Passes u c k) :=
  inferInstanceAs (Decidable (_ ∨ _))

/-- When the law holds: the code's test agrees with the condition, or the word changes nothing
anyway; and the word is not an RRX-indexed transfer that AL moves. -/
structure Agrees (h : Host) (u : Locals) (c : ArmCore) (k : Condition) : Prop where
  skips : k.holds c.flags = false → Passes u c k →
    ∀ x ∈ executedWrites h u c.word c.fetched, x.Idle (fun r => r ≠ 15 ∨ c.Aligned) c.fetched
  executes : k.holds c.flags = true → ¬ Passes u c k →
    ∀ x ∈ executedWrites h u (withAL c.word) c.fetched, x.Idle (fun _ => True) c.fetched
  moves : k.holds c.flags = true → Passes u c k → RrxIndexed c.word →
    transferAt h c.word c.fetched (fieldAddress c.word)
      = transferAt h c.word c.fetched (fieldAddress (withAL c.word))

section

variable {h : Host} {u : Locals} {c : ArmCore} {k : Condition}

theorem decided_iff (hk : Condition.ofField (condField c.word) = some k) :
    Decided c.word c ↔ tested c.flags k = true := by
  constructor
  · intro hdecided
    exact hdecided k hk
  · intro htest k' hk'
    rw [hk] at hk'
    cases hk'
    exact htest

theorem stepState_passes (hin : c.InBounds)
    (hk : Condition.ofField (condField c.word) = some k) (hpass : Passes u c k) :
    stepState h u c = applyWrites (executedWrites h u c.word c.fetched) c.fetched :=
  stepState_executed h hin (hpass.imp_left (decided_iff hk).mpr)

theorem stepState_not_passes (hin : c.InBounds)
    (hk : Condition.ofField (condField c.word) = some k) (hpass : ¬ Passes u c k) :
    stepState h u c = c.fetched :=
  stepState_skipped h hin fun hexec => hpass (hexec.imp_left (decided_iff hk).mp)

theorem executeFetched_withAL (h : Host) (u : Locals) (w : BitVec 32) (c : ArmCore) :
    (executeFetched h u (withAL w) (withAL w) c).state
      = applyWrites (executedWrites h u (withAL w) c) c := by
  rw [(executeFetched_runs h u (withAL w) c).state,
    if_pos (conditionOf_al u (condField_withAL w) c)]

/-- Being skipped is agreeing with the state after the fetch, up to an unaligned pc. -/
theorem skipped_iff {c' : ArmCore} :
    Skipped c c' ↔ AgreeOn (fun r => r ≠ 15 ∨ c.Aligned) c.fetched c' := by
  have hpc (haligned : c.Aligned) : c.fetched.reg.rData 15 = c.pc + 4 := by
    rw [c.fetched_pc, haligned.fetchAddress]
  constructor
  · intro hskip
    refine ⟨fun r hr => ?_, hskip.memory⟩
    by_cases h15 : r = 15
    · subst h15
      have haligned : c.Aligned := hr.resolve_left (fun hn => hn rfl)
      exact (hskip.pc haligned).trans (hpc haligned).symm
    · exact (hskip.registers r h15).trans (c.fetched_of_ne h15).symm
  · rintro ⟨hreg, hmem⟩
    exact ⟨fun r hr => (hreg r (.inl hr)).trans (c.fetched_of_ne hr), hmem,
      fun haligned => (hreg 15 (.inr haligned)).trans (hpc haligned)⟩

end

/-- **The conditional execution law holds exactly when test and condition agree**, up to words
without effect. -/
theorem conditionalLaw_iff (h : Host) (u : Locals) (c : ArmCore) (k : Condition)
    (hin : c.InBounds) (hk : Condition.ofField (condField c.word) = some k) :
    ConditionalLaw h u c k ↔ Agrees h u c k := by
  have hvalue : (executeFetched h u (withAL c.word) (withAL c.word) c.fetched).value = 0 :=
    (executeFetched_runs h u (withAL c.word) c.fetched).value
  constructor
  · rintro ⟨hfails, hholds⟩
    refine ⟨fun hcond hpass => ?_, fun hcond hpass => ?_, fun hcond hpass => ?_⟩
    · have hskip := hfails hcond
      rw [armStep_state, stepState_passes hin hk hpass, skipped_iff, executedWrites_idle] at hskip
      exact hskip
    · have heffect := (hholds hcond).1
      rw [armStep_state, stepState_not_passes hin hk hpass, executeFetched_withAL] at heffect
      exact (executedWrites_eq_self _ _ _ _).mp heffect.symm
    · have heffect := (hholds hcond).1
      rw [armStep_state, stepState_passes hin hk hpass, executeFetched_withAL] at heffect
      exact (effect_withAL_iff _ _ _ _).mp heffect
  · rintro ⟨hskips, hexecutes, hmoves⟩
    refine ⟨fun hcond => ?_, fun hcond => ⟨?_, by rw [armStep_value, hvalue]⟩⟩
    · -- the condition fails: the word is skipped, or let through and idle
      rw [armStep_state, skipped_iff]
      by_cases hpass : Passes u c k
      · rw [stepState_passes hin hk hpass, executedWrites_idle]
        exact hskips hcond hpass
      · rw [stepState_not_passes hin hk hpass]
        exact ⟨fun _ _ => rfl, rfl⟩
    · -- the condition holds: the word is let through, or skipped and idle
      rw [armStep_state, executeFetched_withAL]
      by_cases hpass : Passes u c k
      · rw [stepState_passes hin hk hpass]
        exact (effect_withAL_iff _ _ _ _).mpr (hmoves hcond hpass)
      · rw [stepState_not_passes hin hk hpass]
        exact ((executedWrites_eq_self _ _ _ _).mpr (hexecutes hcond hpass)).symm

/-- `MOVEQ r0, #1`. -/
theorem conditionalLaw_iff_moveq :
    ConditionalLaw Host.masked ⟨0, 0, 0, 0, 0, 0⟩ (executing 0x03A00001 fun _ => 0) .EQ ↔
      Agrees Host.masked ⟨0, 0, 0, 0, 0, 0⟩ (executing 0x03A00001 fun _ => 0) .EQ :=
  conditionalLaw_iff _ _ _ _ (by decide) (by decide)

/-- `MOVLS r0, #1` with all flags clear should move: C is clear. -/
theorem not_conditionalLaw_movls :
    ¬ ConditionalLaw Host.masked ⟨0, 0, 0, 0, 0, 0⟩ (executing 0x93A00001 fun _ => 0) .LS := by
  intro hlaw
  have heffect := (hlaw.holds (by decide)).1
  have hr0 := congrArg (fun c => c.reg.rData 0) heffect
  exact absurd hr0 (by decide)

end Armator
