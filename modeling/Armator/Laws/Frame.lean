import Armator.Semantics.Frame
import Mathlib.Logic.Relation

set_option autoImplicit false

/-! # The frame law of a step

What `arm_step` may change, by the class of the word at the pc, and the mode over runs.
-/

namespace Armator

open Arch Relation

/-- What a step from `c` to `c'` changes at most. -/
structure FrameLaw (h : Host) (c c' : ArmCore) : Prop where
  /-- `r15` goes to the next word, except for branches and results written to `r15`. -/
  pc : classOf c.word ≠ .branch → ¬ (rd c.word = 15 ∧ WritesRd c.word) → c'.pc = c.pc + 4
  /-- Rd and `r14` are the only other registers written. -/
  registers : ∀ r < 15, ¬ (r = rd c.word ∧ WritesRd c.word) →
    ¬ (r = 14 ∧ IsBranchLink c.word) → c'.reg.rData r = c.reg.rData r
  spsr : c'.reg.rData 17 = c.reg.rData 17
  /-- The CPSR below the flags. -/
  cpsr : ∀ i < 28, c'.cpsr.getLsbD i = c.cpsr.getLsbD i
  mode : getMode c'.reg = getMode c.reg
  bytes : ∀ i, ¬ (IsStoreWord c.word ∧ i ∈ covered (armLoadStore h c.word) 4) →
    ¬ (IsStoreByte c.word ∧ i ∈ covered (armLoadStore h c.word) 1) →
    c'.mem.address i = c.mem.address i
  size : c'.mem.size = c.mem.size
  isBigEndian : c'.mem.isBigEndian = c.mem.isBigEndian

/-- A step from an aligned pc inside the memory, whose data access, if any, is inside too. -/
inductive FramedStep (h : Host) : ArmCore → ArmCore → Prop
  | step (u : Locals) (c : ArmCore) (aligned : c.Aligned) (inBounds : c.InBounds)
      (access : classOf c.word = .loadStore →
        c.mem.Inside (armLoadStore h c.word) (accessBytes c.word)) :
      FramedStep h c (armStep h u c).state

theorem getMode_of_cpsr {c c' : ArmCore} (h : c'.cpsr = c.cpsr) :
    getMode c'.reg = getMode c.reg :=
  congrArg (fun cpsr => (cpsr &&& 0b11111).setWidth 8) h

theorem FramedStep.frame {h : Host} {c c' : ArmCore} (hstep : FramedStep h c c') :
    FrameLaw h c c' := by
  obtain ⟨u, c, aligned, inBounds, -⟩ := hstep
  have hword : c.fetchedWord = c.word := inBounds.fetchedWord
  rw [armStep_state]
  refine {
    pc := fun hbranch hrd => ?_
    registers := fun r hlt hrd hlink => ?_
    spsr := stepState_status (by decide)
    cpsr := fun i _ => by rw [stepState_cpsr]
    mode := getMode_of_cpsr stepState_cpsr
    bytes := fun i hword' hbyte => ?_
    size := stepState_size
    isBigEndian := stepState_isBigEndian }
  · have hmay : ¬ MayWriteReg c.fetchedWord 15 := by
      rw [hword]
      rintro (⟨heq, hw⟩ | ⟨-, hb⟩ | ⟨heq, -⟩)
      · exact hrd ⟨heq.symm, hw⟩
      · exact hbranch hb
      · exact absurd heq (by decide)
    rw [stepState_pc hmay, aligned.fetchAddress]
  · refine stepState_reg (by omega) ?_
    rw [hword]
    rintro (hw | ⟨heq, -⟩ | hl)
    · exact hrd hw
    · omega
    · exact hlink hl
  · refine stepState_cell ?_
    rw [hword]
    rintro (hw | hb)
    · exact hword' hw
    · exact hbyte hb

/-- **A step writes only what the class of its word allows, and no run changes the mode.** -/
theorem frame_of_step_and_run (h : Host) :
    (∀ c c', FramedStep h c c' → FrameLaw h c c') ∧
      ∀ c c', ReflTransGen (FramedStep h) c c' → getMode c'.reg = getMode c.reg := by
  refine ⟨fun c c' hstep => hstep.frame, fun c c' hrun => ?_⟩
  -- the mode bits are among the CPSR bits a step leaves alone
  induction hrun with
  | refl => rfl
  | tail _ hstep ih => exact hstep.frame.mode.trans ih

/-- `LDR r1, [r2, #4]`, with the locals at zero. -/
theorem frame_of_load :
    FrameLaw Host.masked (executing 0xE5921004 fun _ => 0)
      (armStep Host.masked ⟨0, 0, 0, 0, 0, 0⟩ (executing 0xE5921004 fun _ => 0)).state ∧
    getMode (armStep Host.masked ⟨0, 0, 0, 0, 0, 0⟩
        (executing 0xE5921004 fun _ => 0)).state.reg
      = getMode (executing 0xE5921004 fun _ => 0).reg := by
  have hstep : FramedStep Host.masked (executing 0xE5921004 fun _ => 0)
      (armStep Host.masked ⟨0, 0, 0, 0, 0, 0⟩ (executing 0xE5921004 fun _ => 0)).state :=
    .step _ _ (by decide) (by decide) (by decide)
  exact ⟨(frame_of_step_and_run Host.masked).1 _ _ hstep,
    (frame_of_step_and_run Host.masked).2 _ _ (.single hstep)⟩

end Armator
