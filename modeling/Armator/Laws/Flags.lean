import Armator.Arch.Alu
import Armator.Semantics.Frame

set_option autoImplicit false

/-! # The flag law of data processing

The expansions of `set_bit` and `clr_bit` compute a new CPSR and drop it, so no instruction
ever changes a flag.
-/

namespace Armator

open Arch

/-- The shifter carry-out of the immediate operand of `w`. -/
def immediateCarry (w : BitVec 32) (old : Bool) : Bool :=
  if field w 11 8 = 0 then old else (immediateOperand w).getLsbD 31

/-- The flags the immediate-operand data-processing instruction at the pc should leave. -/
def ArmCore.flagsDue (c : ArmCore) : Flags :=
  (Opcode.ofField (opcode c.word)).flags (c.operand (rn c.word)) (immediateOperand c.word)
    c.flags (immediateCarry c.word c.flags.c)

/-- The step leaves the flags that are due when S = 1, the old ones when S = 0, and the rest
of the CPSR. -/
structure FlagLaw (h : Host) (u : Locals) (c : ArmCore) : Prop where
  flags : (armStep h u c).state.flags = if c.word.getLsbD 20 then c.flagsDue else c.flags
  rest : ∀ i < 28, (armStep h u c).state.cpsr.getLsbD i = c.cpsr.getLsbD i

/-- **The law holds exactly when the flags need not change.** -/
theorem flagLaw_iff (h : Host) (u : Locals) (c : ArmCore) :
    FlagLaw h u c ↔ c.word.getLsbD 20 = false ∨ c.flagsDue = c.flags := by
  have hcpsr : (armStep h u c).state.cpsr = c.cpsr := by
    rw [armStep_state, stepState_cpsr]
  have hflags : (armStep h u c).state.flags = c.flags := congrArg Flags.ofCpsr hcpsr
  constructor
  · intro hlaw
    have heq := hlaw.flags
    rw [hflags] at heq
    cases h20 : c.word.getLsbD 20 with
    | false => exact .inl rfl
    | true =>
        rw [h20] at heq
        exact .inr heq.symm
  · intro hcond
    refine ⟨?_, fun i _ => by rw [hcpsr]⟩
    rw [hflags]
    -- either no flag is to be set, or they are set already
    rcases hcond with h20 | hsame
    · rw [h20]
      rfl
    · rw [hsame, ite_self]

/-- `SUBS r0, r0, #1` with 1 in `r0` should set Z and C. -/
theorem not_flagLaw_subs :
    ¬ FlagLaw Host.masked ⟨0, 0, 0, 0, 0, 0⟩ (executing 0xE2500001 fun _ => 1) := by
  intro hlaw
  have hflags := hlaw.flags
  rw [ArmCore.flags, armStep_state, stepState_cpsr] at hflags
  exact absurd hflags (by decide)

end Armator
