import Armator.Semantics.Branch

set_option autoImplicit false

/-! # The call and return law

BL links the value it reads from the pc, which is two words ahead of the branch. A call
followed by `MOV pc, lr` never comes back to the word after the call (`not_callLaw`).
-/

namespace Armator

open Arch

/-! ## The law -/

/-- The address a branch at the pc goes to. -/
def ArmCore.callTarget (c : ArmCore) : BitVec 32 := c.pc + 8 + branchOffset c.word

/-- The word at the pc is a BL under AL, and its target is another word of the memory that
holds `MOV pc, lr`. -/
structure CallsReturn (c : ArmCore) : Prop where
  aligned : c.Aligned
  inBounds : c.InBounds
  always : condField c.word = AL
  branchLink : IsBranchLink c.word
  inside : c.mem.Inside c.callTarget 4
  returns : c.mem.wordAt c.callTarget = 0xE1A0F00E
  apart : c.callTarget ≠ c.pc

/-- After the call and the return, execution goes on after the call. -/
structure CallLaw (h : Host) (u u' : Locals) (c : ArmCore) : Prop where
  next : (armStep h u' (armStep h u c).state).state.fetchAddress = c.pc + 4
  link : (armStep h u' (armStep h u c).state).state.reg.rData 14 = c.pc + 4
  registers : ∀ r < 14,
    (armStep h u' (armStep h u c).state).state.reg.rData r = c.reg.rData r
  memory : (armStep h u' (armStep h u c).state).state.mem = c.mem

section

variable {h : Host} {u : Locals} {c : ArmCore}

theorem callTarget_aligned (hpc : c.Aligned) : c.callTarget.toNat % 4 = 0 := by
  have hpc4 : c.pc.toNat % 4 = 0 := hpc
  have hoffset := branchOffset_toNat_mod c.word
  rw [ArmCore.callTarget, BitVec.toNat_add, BitVec.toNat_add,
    show (8 : BitVec 32).toNat = 8 from rfl]
  omega

/-- What BL does: it links the address of the word after the next one. -/
theorem stepState_branchLink (hpc : c.Aligned) (hin : c.InBounds) (hal : condField c.word = AL)
    (hbl : IsBranchLink c.word) :
    stepState h u c = (c.fetched.setReg 14 (c.pc + 8)).setReg 15 c.callTarget := by
  have hne : getBit c.word 24 ≠ 0 := getBit_ne_zero.mpr hbl.2
  have hread : c.fetched.regValue 15 = c.pc + 8 := regValue_fetched hpc
  rw [stepState_of_inBounds h u hin, if_pos (conditionOf_al u hal c), executedWrites_of_class,
    hbl.1]
  dsimp only
  rw [branchWrites, if_neg hne, branchTarget_fetched hpc, hread]
  rfl

/-- The word at the target, once the call has been made. -/
theorem CallsReturn.word_after (hcall : CallsReturn c) :
    (stepState h u c).fetchedWord = 0xE1A0F00E := by
  have hstep := stepState_branchLink (h := h) (u := u) hcall.aligned hcall.inBounds hcall.always
    hcall.branchLink
  have hmem : (stepState h u c).mem = c.mem := by rw [hstep]; rfl
  have hpc : (stepState h u c).pc = c.callTarget := by
    rw [hstep]
    exact ArmCore.setReg_same _ 15 _
  have haligned : (stepState h u c).Aligned := by
    rw [ArmCore.Aligned, hpc]
    exact callTarget_aligned hcall.aligned
  have hin : (stepState h u c).InBounds := by
    rw [ArmCore.InBounds, haligned.fetchAddress, hmem, hpc]
    exact hcall.inside
  rw [hin.fetchedWord, ArmCore.word, haligned.fetchAddress, hmem, hpc]
  exact hcall.returns

end

/-- **No call returns behind itself.** After BL and `MOV pc, lr` the link register holds the
address of the call plus 8. -/
theorem not_callLaw (h : Host) (u u' : Locals) {c : ArmCore} (hcall : CallsReturn c) :
    ¬ CallLaw h u u' c := by
  intro hlaw
  have hlink := hlaw.link
  -- the return writes the pc alone
  have hkeeps : ¬ MayWriteReg (stepState h u c).fetchedWord 14 := by
    rw [hcall.word_after]
    rintro (⟨hrd, _⟩ | ⟨h15, _⟩ | ⟨_, hbranch, _⟩)
    · exact absurd hrd (by decide)
    · cases h15
    · exact absurd hbranch (by decide)
  rw [armStep_state, armStep_state, stepState_reg (by decide) hkeeps,
    stepState_branchLink hcall.aligned hcall.inBounds hcall.always hcall.branchLink,
    ArmCore.setReg_of_ne _ (by decide), ArmCore.setReg_same] at hlink
  have hbias := add_left_cancel hlink
  exact absurd hbias (by decide)

/-- BL at address 0 to `MOV pc, lr` at address 8, in a memory of 64 bytes. -/
def callingReturn : ArmCore where
  cycleCount := 0
  reg := { rData := fun _ => 0 }
  mem := (memoryWriteWord (memoryWriteWord (memoryCreate (some fun _ => 0) 64 0) 0 0xEB000000).2
    8 0xE1A0F00E).2

theorem not_callLaw_callingReturn :
    ¬ CallLaw Host.masked ⟨0, 0, 0, 0, 0, 0⟩ ⟨0, 0, 0, 0, 0, 0⟩ callingReturn :=
  not_callLaw _ _ _
    ⟨by decide, by decide, by decide, ⟨by decide, by decide⟩, by decide, by decide, by decide⟩

/-- The link register of `callingReturn` holds 8 where the law asks for 4. -/
theorem not_callLaw_forall :
    ¬ ∀ (h : Host) (u u' : Locals) (c : ArmCore), CallsReturn c → CallLaw h u u' c := by
  intro hlaw
  have hcalls : CallsReturn callingReturn :=
    ⟨by decide, by decide, by decide, ⟨by decide, by decide⟩, by decide, by decide, by decide⟩
  have hlink := (hlaw Host.masked ⟨0, 0, 0, 0, 0, 0⟩ ⟨0, 0, 0, 0, 0, 0⟩ _ hcalls).link
  exact absurd hlink (by decide)

end Armator
