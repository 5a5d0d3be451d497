import Armator.Arch.Alu
import Armator.Semantics.Frame

set_option autoImplicit false

/-! # The results of data processing

What Rd holds after an arithmetic or logical instruction under AL. `operandValue` is the
shifter operand the step computes, `c.operand` the value of a register the step reads: the pc
is its address plus 8.

The six arithmetic opcodes are right for all operands (`arithmetic_result`). BIC and MVN use
the logical negation and the tests never store a flag, which leaves few operands for which
the logical opcodes are right (`logicalLaw_iff`).
-/

namespace Armator

open Arch

section

variable {h : Host} {u : Locals} {c : ArmCore}

/-- Rd after the word at the pc, when its opcode stores a result. -/
theorem stepState_result (hin : c.InBounds) (hal : condField c.word = AL)
    (hclass : classOf c.word = .dataProcessing) {value : BitVec 32}
    (hresult : aluResult (opcode c.word) (c.operand (rn c.word))
      (operandValue h u c.word c.fetched) (getBit c.cpsr C) = some value) :
    (stepState h u c).reg.rData (rd c.word) = value := by
  rw [stepState_of_inBounds h u hin, if_pos (conditionOf_al u hal c), executedWrites_of_class,
    hclass]
  dsimp only
  rw [dataProcessingWrites, c.regValue_fetched_eq, c.fetched_cpsr, hresult]
  exact ArmCore.setReg_same _ _ _

end

/-! ## Arithmetic -/

/-- The carry flag as a number, and its negation. -/
theorem ofInt_carry (cpsr : BitVec 32) :
    BitVec.ofInt 32 (Flags.ofCpsr cpsr).c.toNat = getBit cpsr C ∧
      BitVec.ofInt 32 (1 - (Flags.ofCpsr cpsr).c.toNat) = cNot (getBit cpsr C) := by
  rw [C, getBit_eq_ofBool]
  show BitVec.ofInt 32 (cpsr.getLsbD 29).toNat = _ ∧
    BitVec.ofInt 32 (1 - (cpsr.getLsbD 29).toNat) = _
  cases cpsr.getLsbD 29 <;> decide

/-- The opcodes 2 to 7 store their exact value modulo `2^32`. -/
theorem aluResult_exact {k : Nat} (hk : 2 ≤ k ∧ k ≤ 7) (n m cpsr : BitVec 32) :
    ∃ value add,
      (Opcode.ofField k).exact n.toNat m.toNat (Flags.ofCpsr cpsr).c.toNat = some (value, add) ∧
        aluResult k n m (getBit cpsr C) = some (BitVec.ofInt 32 value) := by
  obtain ⟨hcarry, hborrow⟩ := ofInt_carry cpsr
  have hcases : k = 2 ∨ k = 3 ∨ k = 4 ∨ k = 5 ∨ k = 6 ∨ k = 7 := by omega
  rcases hcases with rfl | rfl | rfl | rfl | rfl | rfl
  · refine ⟨_, _, rfl, ?_⟩
    rw [ofInt_sub, ofInt_toNat, ofInt_toNat]
    rfl
  · refine ⟨_, _, rfl, ?_⟩
    rw [ofInt_sub, ofInt_toNat, ofInt_toNat]
    rfl
  · refine ⟨_, _, rfl, ?_⟩
    rw [BitVec.ofInt_add, ofInt_toNat, ofInt_toNat]
    rfl
  · refine ⟨_, _, rfl, ?_⟩
    rw [BitVec.ofInt_add, BitVec.ofInt_add, ofInt_toNat, ofInt_toNat, hcarry]
    rfl
  -- SBC and RSC subtract the negated carry
  · refine ⟨_, _, rfl, ?_⟩
    rw [ofInt_sub, ofInt_sub, ofInt_toNat, ofInt_toNat, hborrow]
    rfl
  · refine ⟨_, _, rfl, ?_⟩
    rw [ofInt_sub, ofInt_sub, ofInt_toNat, ofInt_toNat, hborrow]
    rfl

/-- **SUB, RSB, ADD, ADC, SBC and RSC leave in Rd their exact value modulo `2^32`**, also where
Rd is Rn, Rm or the pc. -/
theorem arithmetic_result (h : Host) (u : Locals) {c : ArmCore} (hin : c.InBounds)
    (hal : condField c.word = AL) (hclass : classOf c.word = .dataProcessing)
    (hop : 2 ≤ opcode c.word ∧ opcode c.word ≤ 7) :
    ∃ value add,
      (Opcode.ofField (opcode c.word)).exact (c.operand (rn c.word)).toNat
        (operandValue h u c.word c.fetched).toNat c.flags.c.toNat = some (value, add) ∧
      (armStep h u c).state.reg.rData (rd c.word) = BitVec.ofInt 32 value := by
  obtain ⟨value, add, hexact, hresult⟩ := aluResult_exact hop (c.operand (rn c.word))
    (operandValue h u c.word c.fetched) c.cpsr
  refine ⟨value, add, hexact, ?_⟩
  rw [armStep_state]
  exact stepState_result hin hal hclass hresult

/-- `SBC r1, r1, #1` with the carry clear: 5 - 1 - 1. -/
theorem arithmetic_result_sbc :
    (armStep Host.masked ⟨0, 0, 0, 0, 0, 0⟩
      (executing 0xE2C11001 fun r => if r = 1 then 5 else 0)).state.reg.rData 1 = 3 := by
  obtain ⟨value, add, hexact, hresult⟩ := arithmetic_result
    (c := executing 0xE2C11001 fun r => if r = 1 then 5 else 0) Host.masked ⟨0, 0, 0, 0, 0, 0⟩
    (by decide) (by decide) (by decide) (by decide)
  have hvalue : some ((3 : Int), false) = some (value, add) := hexact
  cases hvalue
  exact hresult

/-! ## Logic -/

/-- AND, EOR, TST, TEQ, ORR, MOV, BIC and MVN. -/
def IsLogical (w : BitVec 32) : Prop :=
  opcode w ∈ [0, 1, 8, 9, 12, 13, 14, 15]

instance (w : BitVec 32) : Decidable (IsLogical w) := inferInstanceAs (Decidable (_ ∈ _))

/-- What the logical opcode of the word at the pc should yield. -/
def ArmCore.logicalDue (h : Host) (u : Locals) (c : ArmCore) : BitVec 32 :=
  (Opcode.ofField (opcode c.word)).logical (c.operand (rn c.word))
    (operandValue h u c.word c.fetched)

/-- The result goes to Rd. The tests write no register besides the pc increment of the fetch,
and set N and Z. -/
structure LogicalLaw (h : Host) (u : Locals) (c : ArmCore) : Prop where
  result : ¬ IsComparison c.word →
    (armStep h u c).state.reg.rData (rd c.word) = c.logicalDue h u
  quiet : IsComparison c.word → ∀ r < 15,
    (armStep h u c).state.reg.rData r = c.reg.rData r
  next : IsComparison c.word → (armStep h u c).state.pc = c.fetchAddress + 4
  flags : IsComparison c.word →
    (armStep h u c).state.flags.n = (c.logicalDue h u).getLsbD 31 ∧
      (armStep h u c).state.flags.z = decide (c.logicalDue h u = 0)

/-- The operands for which the opcode is right: BIC clears with the *logical* negation of `m`,
MVN stores it, and a test stores no flag. -/
def LogicalRight (f : Flags) (n m : BitVec 32) (k : Nat) : Prop :=
  match Opcode.ofField k with
  | .BIC => m = 0 ∧ n.toNat ≤ 1 ∨ m ≠ 0 ∧ n &&& ~~~m = 0
  | .MVN => m = 0xFFFFFFFF
  | .TST => f.n = (n &&& m).getLsbD 31 ∧ f.z = decide (n &&& m = 0)
  | .TEQ => f.n = (n ^^^ m).getLsbD 31 ∧ f.z = decide (n ^^^ m = 0)
  | _ => True

section

variable {h : Host} {u : Locals} {c : ArmCore}

theorem and_one_eq_self {n : BitVec 32} : n &&& 1 = n ↔ n.toNat ≤ 1 := by
  rw [← BitVec.toNat_inj, BitVec.toNat_and, show (1 : BitVec 32).toNat = 1 from rfl,
    Nat.and_one_is_mod]
  omega

/-- BIC with the logical negation: it keeps bit 0 or nothing. -/
theorem and_cNot_eq {n m : BitVec 32} :
    n &&& cNot m = n &&& ~~~m ↔ m = 0 ∧ n.toNat ≤ 1 ∨ m ≠ 0 ∧ n &&& ~~~m = 0 := by
  by_cases hm : m = 0
  · have hones : ~~~(0 : BitVec 32) = BitVec.allOnes 32 := rfl
    rw [hm, cNot, if_pos rfl, hones, BitVec.and_allOnes, and_one_eq_self]
    simp
  · have hzero : n &&& 0 = 0 := BitVec.and_zero
    rw [cNot, if_neg hm, hzero, eq_comm]
    constructor
    · intro hclear
      exact .inr ⟨hm, hclear⟩
    · rintro (⟨h0, _⟩ | ⟨_, hclear⟩)
      · exact absurd h0 hm
      · exact hclear

/-- MVN with the logical negation. -/
theorem cNot_eq {m : BitVec 32} : cNot m = ~~~m ↔ m = 0xFFFFFFFF := by
  constructor
  · intro heq
    by_cases hm : m = 0
    · rw [hm] at heq
      exact absurd heq (by decide)
    · rw [cNot, if_neg hm] at heq
      calc m = ~~~(~~~m) := BitVec.not_not.symm
        _ = ~~~0 := by rw [← heq]
        _ = 0xFFFFFFFF := rfl
  · rintro rfl
    rfl

/-- What a logical opcode that is no test stores, and when that is right. -/
theorem aluResult_logical {k : Nat} (hk : k ∈ [0, 1, 12, 13, 14, 15]) (f : Flags)
    (n m carry : BitVec 32) :
    ∃ r, aluResult k n m carry = some r ∧
      (r = (Opcode.ofField k).logical n m ↔ LogicalRight f n m k) := by
  have hcases : k = 0 ∨ k = 1 ∨ k = 12 ∨ k = 13 ∨ k = 14 ∨ k = 15 := by simpa using hk
  rcases hcases with rfl | rfl | rfl | rfl | rfl | rfl
  · exact ⟨n &&& m, rfl, iff_of_true rfl trivial⟩
  · exact ⟨n ^^^ m, rfl, iff_of_true rfl trivial⟩
  · exact ⟨n ||| m, rfl, iff_of_true rfl trivial⟩
  · exact ⟨m, rfl, iff_of_true rfl trivial⟩
  · exact ⟨n &&& cNot m, rfl, and_cNot_eq⟩
  · exact ⟨cNot m, rfl, cNot_eq⟩

theorem isComparison_iff (w : BitVec 32) : IsComparison w ↔ opcode w / 4 = 2 := by
  rw [opcode_div_four, IsComparison]

/-- A test leaves the flags it finds. -/
theorem logicalRight_test {k : Nat} (hk : k = 8 ∨ k = 9) (f : Flags) (n m : BitVec 32) :
    LogicalRight f n m k ↔
      f.n = ((Opcode.ofField k).logical n m).getLsbD 31 ∧
        f.z = decide ((Opcode.ofField k).logical n m = 0) := by
  rcases hk with rfl | rfl <;> rfl

end

/-- **The logical opcodes are right exactly for the operands of `LogicalRight`.** -/
theorem logicalLaw_iff (h : Host) (u : Locals) {c : ArmCore} (hin : c.InBounds)
    (hal : condField c.word = AL) (hclass : classOf c.word = .dataProcessing)
    (hop : IsLogical c.word) :
    LogicalLaw h u c ↔ LogicalRight c.flags (c.operand (rn c.word))
      (operandValue h u c.word c.fetched) (opcode c.word) := by
  have hopcode : opcode c.word = 0 ∨ opcode c.word = 1 ∨ opcode c.word = 8 ∨ opcode c.word = 9 ∨
      opcode c.word = 12 ∨ opcode c.word = 13 ∨ opcode c.word = 14 ∨ opcode c.word = 15 := by
    simpa [IsLogical] using hop
  have hflags : (armStep h u c).state.flags = c.flags := by
    rw [armStep_state, ArmCore.flags, stepState_cpsr, ArmCore.flags]
  by_cases hcmp : IsComparison c.word
  · have htest : opcode c.word = 8 ∨ opcode c.word = 9 := by
      rw [isComparison_iff] at hcmp
      omega
    have hkeeps (r : Nat) : ¬ MayWriteReg c.fetchedWord r := by
      rw [hin.fetchedWord]
      exact not_mayWriteReg_comparison hclass hcmp r
    rw [logicalRight_test htest]
    constructor
    · intro hlaw
      have hset := hlaw.flags hcmp
      rwa [hflags] at hset
    · intro hset
      refine ⟨fun hnot => absurd hcmp hnot, fun _ r hr => ?_, fun _ => ?_, fun _ => ?_⟩
      · rw [armStep_state]
        exact stepState_reg (by omega) (hkeeps r)
      · rw [armStep_state]
        exact stepState_pc (hkeeps 15)
      · rwa [hflags]
  · have hstores : opcode c.word ∈ [0, 1, 12, 13, 14, 15] := by
      rw [isComparison_iff] at hcmp
      simp only [List.mem_cons, List.not_mem_nil, or_false]
      omega
    obtain ⟨r, hresult, hright⟩ := aluResult_logical hstores c.flags (c.operand (rn c.word))
      (operandValue h u c.word c.fetched) (getBit c.cpsr C)
    have hstored : (armStep h u c).state.reg.rData (rd c.word) = r := by
      rw [armStep_state]
      exact stepState_result hin hal hclass hresult
    rw [← hright]
    constructor
    · intro hlaw
      rw [← hstored]
      exact hlaw.result hcmp
    · intro heq
      exact ⟨fun _ => hstored.trans heq, fun hyes => absurd hyes hcmp,
        fun hyes => absurd hyes hcmp, fun hyes => absurd hyes hcmp⟩

/-- `ORR r0, r1, #2`. -/
theorem logicalLaw_iff_orr :
    LogicalLaw Host.masked ⟨0, 0, 0, 0, 0, 0⟩ (executing 0xE3810002 fun _ => 1) ↔
      LogicalRight (executing 0xE3810002 fun _ => 1).flags 1 2 12 :=
  logicalLaw_iff (c := executing 0xE3810002 fun _ => 1) Host.masked ⟨0, 0, 0, 0, 0, 0⟩
    (by decide) (by decide) (by decide) (by decide)

/-- `MVN r0, #0` stores 1. -/
theorem not_logicalLaw_mvn :
    ¬ LogicalLaw Host.masked ⟨0, 0, 0, 0, 0, 0⟩ (executing 0xE3E00000 fun _ => 0) := by
  intro hlaw
  have hresult := hlaw.result (by decide)
  exact absurd hresult (by decide)

end Armator
