import Armator.Semantics.Branch

set_option autoImplicit false

/-! # The branch law

A taken branch goes to its own address plus 8 plus four times its signed offset, modulo
`2^32`, and is fetched from there.
-/

namespace Armator

open Arch

/-- The signed offset of a branch, in words. -/
def signedOffset (w : BitVec 32) : Int := (w.extractLsb' 0 24).toInt

/-- `c'` is the state after the branch that stands at the pc of `c`. -/
structure BranchLaw (c c' : ArmCore) : Prop where
  target : c'.pc = BitVec.ofInt 32 (c.pc.toNat + 8 + 4 * signedOffset c.word)
  nextFetch : c'.fetchAddress = c'.pc
  aligned : c'.Aligned
  /-- B writes nothing but the pc. -/
  others : c.word.getLsbD 24 = false → ∀ r, r ≠ 15 → c'.reg.rData r = c.reg.rData r

section

variable {h : Host} {u : Locals} {c : ArmCore}

theorem signedTarget_eq (c : ArmCore) :
    BitVec.ofInt 32 (c.pc.toNat + 8 + 4 * signedOffset c.word)
      = c.pc + 8 + branchOffset c.word := by
  calc BitVec.ofInt 32 (c.pc.toNat + 8 + 4 * signedOffset c.word)
      = BitVec.ofInt 32 c.pc.toNat + BitVec.ofInt 32 8
          + BitVec.ofInt 32 (4 * signedOffset c.word) := by
        rw [BitVec.ofInt_add, BitVec.ofInt_add]
    _ = c.pc + 8 + branchOffset c.word := by
        rw [BitVec.ofInt_natCast, BitVec.ofNat_toNat, BitVec.setWidth_eq, branchOffset_eq_ofInt]
        rfl

/-- The pc after a branch, with or without link. -/
theorem stepState_branch_pc (hpc : c.Aligned) (hin : c.InBounds) (hal : condField c.word = AL)
    (hclass : classOf c.word = .branch) :
    (stepState h u c).pc = c.pc + 8 + branchOffset c.word := by
  rw [stepState_of_inBounds h u hin, if_pos (conditionOf_al u hal c), executedWrites_of_class,
    hclass]
  dsimp only
  -- the write of the pc comes last in both forms
  rw [branchWrites]
  split
  · exact (ArmCore.setReg_same _ 15 _).trans (branchTarget_fetched hpc _)
  · exact (ArmCore.setReg_same _ 15 _).trans (branchTarget_fetched hpc _)

end

/-- **The branch law.** It holds of every B and BL under AL at an aligned address. -/
theorem branchLaw (h : Host) (u : Locals) {c : ArmCore} (hpc : c.Aligned) (hin : c.InBounds)
    (hal : condField c.word = AL) (hclass : classOf c.word = .branch) :
    BranchLaw c (armStep h u c).state := by
  rw [armStep_state]
  have htarget := stepState_branch_pc (h := h) (u := u) hpc hin hal hclass
  have haligned : (stepState h u c).Aligned := by
    have hpc4 : c.pc.toNat % 4 = 0 := hpc
    have hoffset := branchOffset_toNat_mod c.word
    rw [ArmCore.Aligned, htarget, BitVec.toNat_add, BitVec.toNat_add,
      show (8 : BitVec 32).toNat = 8 from rfl]
    omega
  refine ⟨?_, haligned.fetchAddress, haligned, fun hlink r hr => ?_⟩
  · rw [signedTarget_eq]
    exact htarget
  · refine stepState_reg hr ?_
    rw [hin.fetchedWord]
    rintro (⟨_, ⟨hdata, _⟩ | ⟨hload, _⟩⟩ | ⟨h15, _⟩ | ⟨_, _, hbit⟩)
    · rw [hclass] at hdata
      cases hdata
    · rw [hclass] at hload
      cases hload
    · exact hr h15
    · rw [hlink] at hbit
      cases hbit

/-- `B` with the offset -3, at address 0: the target wraps. -/
theorem branchLaw_backwards :
    BranchLaw (executing 0xEAFFFFFD fun _ => 0)
      (armStep Host.masked ⟨0, 0, 0, 0, 0, 0⟩ (executing 0xEAFFFFFD fun _ => 0)).state :=
  branchLaw _ _ (by decide) (by decide) (by decide) (by decide)

end Armator
