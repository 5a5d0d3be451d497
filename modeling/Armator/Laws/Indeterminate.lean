import Armator.Laws.Undefined
import Armator.Semantics.Branch

set_option autoImplicit false

/-! # Dependence on indeterminate values

The value of a condition that fails, `bits4_11` and `shift_imm` are indeterminate. When does a
step not depend on them?
-/

namespace Armator

open Arch

/-- Any two choices of the indeterminate values lead to the same registers, memory and return
value. -/
def Deterministic (h : Host) (c : ArmCore) : Prop :=
  ∀ u u' : Locals,
    (armStep h u c).state.reg = (armStep h u' c).state.reg ∧
      (armStep h u c).state.mem = (armStep h u' c).state.mem ∧
      (armStep h u c).value = (armStep h u' c).value

/-- The choice for which a register operand is not shifted and no condition fails. -/
def plainLocals : Locals := ⟨0, 0, 1, 0, 0, 0⟩

/-- What the shifter makes of the value `m` of Rm when `k` is in `shift_imm`. A shift by a register
and LSL do not look at it. LSR, ASR and ROR shift by it, whatever amount the word has, and 0 stands
for 32 or for RRX, which shifts a 0 in. -/
def shiftedBy (h : Host) (k w m : BitVec 32) (carry : Bool) : BitVec 32 :=
  if w.getLsbD 4 then (registerShift (shiftKind w) (rs w) carry m).1
  else
    match shiftKind w with
    | .LSL => m <<< shiftAmount w
    | .LSR => if k = 0 then 0 else cShr h m k.toNat
    | .ASR => if k = 0 then m.sshiftRight 32 else asr h m (k.setWidth 8)
    | .ROR => if shiftAmount w = 0 ∨ k = 0 then m >>> 1 else ror h m (k.setWidth 8)

/-- What a register holds once the word is fetched. -/
def ArmCore.behindFetch (c : ArmCore) (r : Nat) : BitVec 32 :=
  if r = 15 then c.fetchAddress + 4 else c.reg.rData r

/-- The second operand with Rm as it is. The host decides what a rotation by 0 is. -/
def ArmCore.plainOperand (h : Host) (c : ArmCore) : BitVec 32 :=
  if c.word.getLsbD 25 then
    ror h (BitVec.ofNat 32 (field c.word 7 0)) (BitVec.ofNat 8 (2 * field c.word 11 8))
  else c.operand (rm c.word)

/-- What a data-processing word stores for the operand `m`, if anything. -/
def ArmCore.resultFor (c : ArmCore) (m : BitVec 32) : Option (BitVec 32) :=
  aluResult (opcode c.word) (c.operand (rn c.word)) m (getBit c.cpsr C)

/-- What the word at the pc writes is there already: the result for an operand that is not
shifted, the datum of a load, the bytes of a store. A branch goes to the next word, and if it links
the return address is in r14. -/
def WritesNothingNew (h : Host) (c : ArmCore) : Prop :=
  match classOf c.word with
  | .dataProcessing =>
    ∀ value ∈ c.resultFor (c.plainOperand h), c.behindFetch (rd c.word) = value
  | .loadStore =>
    if c.word.getLsbD 20 then
      c.behindFetch (rd c.word)
        = if rd c.word = 15 ∧ c.word.getLsbD 22 = false then c.loadDatum h &&& 0xFFFFFFFE
          else c.loadDatum h
    else if c.word.getLsbD 22 then
      c.mem.address (fieldAddress c.word).toNat = (c.operand (rd c.word)).setWidth 8
    else
      (covered (fieldAddress c.word) 4).map c.mem.address
        = inOrder (c.mem.isBigEndian = 1) (split 4 (c.operand (rd c.word)).toNat)
  | .branch =>
    (c.word.getLsbD 24 = true → c.reg.rData 14 = c.fetchAddress + 8) ∧ branchOffset c.word = -4
  | _ => True

/-- The word at the pc leaves nothing to the indeterminate values. `ConditionPassed` returns a value
when the condition holds, and falls off its end otherwise; `bits4_11` decides whether a register
operand is shifted, and `shift_imm` by how much. -/
structure Settled (h : Host) (c : ArmCore) : Prop where
  /-- The condition holds, or it does not matter whether the word is executed. -/
  condition : Decided c.word c ∨ WritesNothingNew h c
  /-- Rm gives the same result whether it is shifted or not, and by any `shift_imm`. -/
  operand : classOf c.word = .dataProcessing → c.word.getLsbD 25 = false → ∀ k,
    c.resultFor (shiftedBy h k c.word (c.operand (rm c.word)) c.flags.c)
      = c.resultFor (c.operand (rm c.word))

theorem deterministic_iff_stepState (h : Host) (c : ArmCore) :
    Deterministic h c ↔ ∀ u u', stepState h u c = stepState h u' c := by
  constructor
  · intro hdet u u'
    obtain ⟨hreg, hmem, -⟩ := hdet u u'
    rw [armStep_state, armStep_state] at hreg hmem
    refine (agreeOn_true_iff ?_).mp ⟨fun r _ => by rw [hreg], hmem⟩
    rw [stepState_cycleCount, stepState_cycleCount]
  · intro hsame u u'
    rw [armStep_state, armStep_state, hsame u u', armStep_value, armStep_value]
    exact ⟨rfl, rfl, rfl⟩

section

variable {h : Host} {c : ArmCore}

theorem behindFetch_eq (c : ArmCore) (r : Nat) : c.fetched.reg.rData r = c.behindFetch r := by
  rw [ArmCore.behindFetch]
  by_cases hr : r = 15
  · subst hr
    rw [if_pos rfl]
    exact c.fetched_pc
  · rw [if_neg hr]
    exact c.fetched_of_ne hr

/-! ## The operand -/

theorem shifterResult_shiftedBy (h : Host) (k w m : BitVec 32) (carry : Bool) :
    (shifterResult h k w m (flagWord carry)).1 = shiftedBy h k w m carry := by
  rw [shiftedBy]
  cases h4 : w.getLsbD 4 with
  | true =>
      rw [if_pos rfl, shifterResult_rs h4]
      rfl
  | false =>
      rw [if_neg Bool.false_ne_true]
      rcases shiftKind_cases w with hk | hk | hk | hk
      · rw [shifterResult_LSL h m h4 _ _ hk, shiftKind, hk]
        rcases Nat.eq_zero_or_pos (shiftAmount w) with h0 | hpos
        · rw [if_pos (bits7_11_eq_zero.mpr h0), h0]
          exact (BitVec.shiftLeft_zero m).symm
        · have hamount : 0 < shiftAmount w ∧ shiftAmount w < 32 := ⟨hpos, shiftAmount_lt w⟩
          have hfield : getBits w 11 7 = BitVec.ofNat 32 (shiftAmount w) :=
            getBits_eq_ofNat w (by decide)
          rw [hfield, if_neg (amount_ne_zero hamount)]
          exact logicalShift_left h m hamount
      · rw [shifterResult_LSR h m h4 _ _ hk, shiftKind, hk, apply_ite Prod.fst]
        rfl
      · have hsign : getBit m 31 = 0 ↔ m.getLsbD 31 = false := getBit_eq_zero
        rw [shifterResult_ASR h m h4 _ _ hk, shiftKind, hk, apply_ite Prod.fst,
          if_congr hsign rfl rfl, ← sshiftRight_32]
        rfl
      · rw [shifterResult_ROR h m h4 _ _ hk, shiftKind, hk, apply_ite Prod.fst,
          if_congr (or_congr_left bits7_11_eq_zero) rfl rfl]
        rfl

/-- A register operand, by the two locals. -/
theorem operandValue_fetched (u : Locals) (h25 : c.word.getLsbD 25 = false) :
    operandValue h u c.word c.fetched = if u.bits4_11 = 0 then c.operand (rm c.word)
      else shiftedBy h u.shiftImm c.word (c.operand (rm c.word)) c.flags.c := by
  have hcarry : getBit c.fetched.cpsr C = flagWord c.flags.c := getBit_eq_ofBool c.cpsr 29
  rw [operandValue_register h u c.fetched h25, c.regValue_fetched_eq, hcarry,
    shifterResult_shiftedBy]

theorem operandValue_plain (h : Host) (c : ArmCore) :
    operandValue h plainLocals c.word c.fetched = c.plainOperand h := by
  rw [ArmCore.plainOperand]
  cases h25 : c.word.getLsbD 25 with
  | false =>
      rw [operandValue_fetched plainLocals h25, if_pos (show plainLocals.bits4_11 = 0 from rfl)]
      rfl
  | true =>
      have hrotation : (BitVec.ofNat 32 (field c.word 11 8) * 2).setWidth 8
          = BitVec.ofNat 8 (2 * field c.word 11 8) := by
        apply BitVec.eq_of_toNat_eq
        rw [BitVec.toNat_setWidth, BitVec.toNat_mul, BitVec.toNat_ofNat, BitVec.toNat_ofNat,
          show (2 : BitVec 32).toNat = 2 from rfl]
        omega
      rw [operandValue_rotated h plainLocals c.fetched h25, getBits_eq_ofNat c.word (by decide),
        getBits_eq_ofNat c.word (by decide), if_pos rfl]
      exact congrArg (ror h _) hrotation

/-! ## The writes -/

/-- Whether an opcode stores a result does not depend on the operand. -/
theorem resultFor_eq_none_congr (c : ArmCore) (m m' : BitVec 32) :
    c.resultFor m = none ↔ c.resultFor m' = none := by
  unfold ArmCore.resultFor aluResult
  split <;> simp

/-- The result an instruction stores can be read back from Rd. -/
theorem resultFor_of_effect {m m' : BitVec 32}
    (heq : applyWrites ((c.resultFor m).toList.map (.reg (rd c.word))) c.fetched
      = applyWrites ((c.resultFor m').toList.map (.reg (rd c.word))) c.fetched) :
    c.resultFor m = c.resultFor m' := by
  have hnone : c.resultFor m = none ↔ c.resultFor m' = none := resultFor_eq_none_congr c m m'
  cases hm : c.resultFor m with
  | none => exact (hnone.mp hm).symm
  | some value =>
      cases hm' : c.resultFor m' with
      | none =>
          rw [hnone.mpr hm'] at hm
          cases hm
      | some value' =>
          rw [hm, hm'] at heq
          have hread : (c.fetched.setReg (rd c.word) value).reg.rData (rd c.word)
              = (c.fetched.setReg (rd c.word) value').reg.rData (rd c.word) :=
            congrArg (fun c' : ArmCore => c'.reg.rData (rd c.word)) heq
          rw [ArmCore.setReg_same, ArmCore.setReg_same] at hread
          rw [hread]

theorem executedWrites_dataProcessing (u : Locals) (hclass : classOf c.word = .dataProcessing) :
    executedWrites h u c.word c.fetched
      = (c.resultFor (operandValue h u c.word c.fetched)).toList.map (.reg (rd c.word)) := by
  rw [executedWrites_of_class, hclass]
  dsimp only
  rw [dataProcessingWrites, c.regValue_fetched_eq]
  rfl

/-- The writes depend on the indeterminate values through a register operand only. -/
theorem executedWrites_uniform
    (hoperand : classOf c.word = .dataProcessing → c.word.getLsbD 25 = false → ∀ k,
      c.resultFor (shiftedBy h k c.word (c.operand (rm c.word)) c.flags.c)
        = c.resultFor (c.operand (rm c.word))) (u : Locals) :
    executedWrites h u c.word c.fetched = executedWrites h plainLocals c.word c.fetched := by
  by_cases hclass : classOf c.word = .dataProcessing
  · rw [executedWrites_dataProcessing u hclass, executedWrites_dataProcessing _ hclass]
    cases h25 : c.word.getLsbD 25 with
    | true => rw [operandValue_rotated h u _ h25, operandValue_rotated h plainLocals _ h25]
    | false =>
        rw [operandValue_fetched u h25, operandValue_fetched plainLocals h25,
          if_pos (show plainLocals.bits4_11 = 0 from rfl)]
        split
        · rfl
        · rw [hoperand hclass h25]
  · rw [executedWrites_of_class, executedWrites_of_class]
    split
    · rename_i hdata
      exact absurd hdata hclass
    · rfl
    · rfl
    · rfl

theorem branch_idle (c : ArmCore) :
    (∀ x ∈ branchWrites c.word c.fetched, x.Idle (fun _ => True) c.fetched) ↔
      (c.word.getLsbD 24 = true → c.reg.rData 14 = c.fetchAddress + 8) ∧
        branchOffset c.word = -4 := by
  have hpc : c.fetched.regValue 15 = c.fetchAddress + 8 := c.regValue_fetched_eq 15
  have htarget : branchTarget c.word c.fetched = c.fetchAddress + 8 + branchOffset c.word := by
    rw [branchTarget, hpc, extend30_shift]
  have hnext : Write.Idle (fun _ => True) c.fetched (.reg 15 (branchTarget c.word c.fetched))
      ↔ branchOffset c.word = -4 := by
    rw [Write.Idle, forall_const, behindFetch_eq, htarget, ArmCore.behindFetch, if_pos rfl]
    generalize branchOffset c.word = offset
    generalize c.fetchAddress = address
    constructor
    · intro heq
      bv_omega
    · rintro rfl
      bv_omega
  have hlink : Write.Idle (fun _ => True) c.fetched (.reg 14 (c.fetched.regValue 15))
      ↔ c.reg.rData 14 = c.fetchAddress + 8 := by
    rw [Write.Idle, forall_const, c.fetched_of_ne (by decide), hpc]
  rw [branchWrites]
  cases h24 : c.word.getLsbD 24 with
  | false =>
      rw [if_pos (getBit_eq_zero.mpr h24), List.forall_mem_singleton, hnext]
      simp
  | true =>
      rw [if_neg (getBit_ne_zero.mpr h24), List.forall_mem_cons, List.forall_mem_singleton, hlink,
        hnext]
      simp

theorem writesNothingNew_iff (h : Host) (c : ArmCore) :
    (∀ x ∈ executedWrites h plainLocals c.word c.fetched, x.Idle (fun _ => True) c.fetched) ↔
      WritesNothingNew h c := by
  rw [WritesNothingNew]
  cases hclass : classOf c.word with
  | dataProcessing =>
      dsimp only
      rw [executedWrites_dataProcessing plainLocals hclass, operandValue_plain, List.forall_mem_map]
      simp only [Option.mem_toList]
      refine forall₂_congr fun value _ => ?_
      rw [Write.Idle, forall_const, behindFetch_eq]
  | loadStore =>
      rw [executedWrites_of_class, hclass]
      dsimp only
      rw [armLoadStore_eq, c.regValue_fetched_eq, c.fetched_mem, loadStore_idle]
      split
      · rw [forall_const, behindFetch_eq]
      · rfl
  | branch =>
      rw [executedWrites_of_class, hclass]
      exact branch_idle c
  | _ =>
      rw [executedWrites_of_class, hclass]
      exact iff_of_true (fun x hx => by cases hx) trivial

end

/-- **A step is deterministic exactly when the word at the pc is settled.** -/
theorem deterministic_iff (h : Host) (c : ArmCore) (hin : c.InBounds) :
    Deterministic h c ↔ Settled h c := by
  rw [deterministic_iff_stepState]
  constructor
  · intro hsame
    refine ⟨?_, fun hclass h25 k => ?_⟩
    · by_cases hdecided : Decided c.word c
      · exact .inl hdecided
      · -- one choice executes the word, the other skips it
        right
        rw [← writesNothingNew_iff, ← executedWrites_eq_self,
          ← stepState_executed h hin (.inr (show plainLocals.conditionPassed ≠ 0 by decide)),
          hsame plainLocals ⟨0, 0, 0, 0, 0, 0⟩]
        exact stepState_skipped h hin fun hexec => hexec.elim hdecided (absurd rfl)
    · -- both choices execute the word; one shifts Rm
      have heffect := hsame ⟨1, k, 1, 0, 0, 0⟩ plainLocals
      rw [stepState_executed h hin (.inr Int.one_ne_zero),
        stepState_executed h hin (.inr Int.one_ne_zero),
        executedWrites_dataProcessing _ hclass, executedWrites_dataProcessing _ hclass,
        operandValue_fetched _ h25, operandValue_fetched _ h25] at heffect
      exact resultFor_of_effect heffect
  · rintro ⟨hcondition, hoperand⟩ u u'
    have huniform := executedWrites_uniform hoperand
    rcases hcondition with hdecided | hnothing
    · rw [stepState_executed h hin (.inl hdecided), stepState_executed h hin (.inl hdecided),
        huniform u, huniform u']
    · have hidle := (writesNothingNew_iff h c).mpr hnothing
      have hfetched (u : Locals) : stepState h u c = c.fetched := by
        by_cases hexec : Decided c.word c ∨ u.conditionPassed ≠ 0
        · rw [stepState_executed h hin hexec, huniform u]
          exact (executedWrites_eq_self h plainLocals c.word c.fetched).mpr hidle
        · exact stepState_skipped h hin hexec
      rw [hfetched u, hfetched u']

/-- `MOV r0, r1`. -/
theorem deterministic_iff_mov :
    Deterministic Host.masked (executing 0xE1A00001 fun _ => 1) ↔
      Settled Host.masked (executing 0xE1A00001 fun _ => 1) :=
  deterministic_iff _ _ (by decide)

/-- `MOV r0, r1, LSL #1` with 1 in `r1` moves 1 or 2. -/
theorem not_deterministic_shifted :
    ¬ Deterministic Host.masked (executing 0xE1A00081 fun _ => 1) := by
  intro hdet
  have hreg := (hdet ⟨0, 0, 0, 0, 0, 0⟩ ⟨1, 0, 0, 0, 0, 0⟩).1
  have hr0 := congrArg (fun reg => reg.rData 0) hreg
  exact absurd hr0 (by decide)

end Armator
