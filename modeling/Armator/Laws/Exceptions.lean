import Armator.Semantics.Run

set_option autoImplicit false

/-! # The laws of reset, rejected instructions and aborts

`arm_exception(RESET)` sets the CPSR and loses its write of the pc. `arm_step` returns 0
whatever it executes: the statuses of the decoding functions go to `arm_decode`, which
nothing reads, and those of the memory accesses are used as data.
-/

namespace Armator

open Arch

/-! ## Reset -/

/-- After RESET in `c`: the CPSR is `0x1d3`, the next step fetches from address 0, and RESET
itself changed neither `r0`..`r12` nor the memory. -/
structure ResetLaw (h : Host) (c : ArmCore) : Prop where
  cpsr : (armException (BitVec.ofInt 8 RESET) c).state.cpsr = 0x1d3
  fetch : ∀ u, (armStep h u (armException (BitVec.ofInt 8 RESET) c).state).events.filterMap
    Event.fetchAddress? = [0]
  registers : ∀ r ≤ 12,
    (armException (BitVec.ofInt 8 RESET) c).state.reg.rData r = c.reg.rData r
  memory : (armException (BitVec.ofInt 8 RESET) c).state.mem = c.mem

/-- The same right after `arm_create`. -/
structure CreateLaw (h : Host) (mem : Memory) (storage : Nat → BitVec 32)
    (cycleCount : BitVec 32) : Prop where
  cpsr : (armCreate mem storage cycleCount).cpsr = 0x1d3
  fetch : ∀ u, (armStep h u (armCreate mem storage cycleCount)).events.filterMap
    Event.fetchAddress? = [0]
  registers : ∀ r ≤ 12, (armCreate mem storage cycleCount).reg.rData r = storage r
  memory : (armCreate mem storage cycleCount).mem = mem

theorem fetchAddress_setReg (c : ArmCore) {r : Nat} (hr : r ≠ 15) (value : BitVec 32) :
    (c.setReg r value).fetchAddress = c.fetchAddress := by
  rw [ArmCore.fetchAddress_eq, ArmCore.fetchAddress_eq, ArmCore.pc, ArmCore.pc,
    c.setReg_of_ne (Ne.symm hr)]

theorem resetLaw_iff_pc (h : Host) (c : ArmCore) : ResetLaw h c ↔ c.pc = 0 ∨ c.pc = 2 := by
  have hfetch (u : Locals) :
      (armStep h u (armException (BitVec.ofInt 8 RESET) c).state).events.filterMap
        Event.fetchAddress? = [c.fetchAddress] := by
    rw [armStep_fetchAddresses, armException_reset_state, fetchAddress_setReg c (by decide)]
  rw [← ArmCore.fetchAddress_eq_zero]
  constructor
  · intro hlaw
    -- any choice of the locals shows the address
    have hzero := (hfetch ⟨0, 0, 0, 0, 0, 0⟩).symm.trans (hlaw.fetch ⟨0, 0, 0, 0, 0, 0⟩)
    exact List.singleton_inj.mp hzero
  · intro hzero
    refine ⟨?_, fun u => (hfetch u).trans (congrArg ([·]) hzero), fun r hr => ?_, ?_⟩
    · rw [armException_reset_state]
      exact c.setReg_same 16 0x1d3
    · rw [armException_reset_state]
      exact c.setReg_of_ne (by omega) 0x1d3
    · rw [armException_reset_state]
      rfl

theorem armCreate_eq (mem : Memory) (storage : Nat → BitVec 32) (cycleCount : BitVec 32) :
    armCreate mem storage cycleCount
      = (ArmCore.mk 0 (registersCreate storage) mem).setReg 16 0x1d3 := by
  rw [armCreate, armException_reset_state]
  rfl

theorem createLaw_iff (h : Host) (mem : Memory) (storage : Nat → BitVec 32)
    (cycleCount : BitVec 32) :
    CreateLaw h mem storage cycleCount ↔ storage 15 = 0 ∨ storage 15 = 2 := by
  have hpc : (ArmCore.mk 0 (registersCreate storage) mem).pc = storage 15 := rfl
  rw [← hpc, ← resetLaw_iff_pc h]
  constructor
  · rintro ⟨hcpsr, hfetch, hregs, hmem⟩
    rw [armCreate_eq, ← armException_reset_state] at hcpsr hmem
    simp only [armCreate_eq, ← armException_reset_state] at hfetch hregs
    exact ⟨hcpsr, hfetch, hregs, hmem⟩
  · rintro ⟨hcpsr, hfetch, hregs, hmem⟩
    rw [armException_reset_state, ← armCreate_eq mem storage cycleCount] at hcpsr hmem
    simp only [armException_reset_state, ← armCreate_eq mem storage cycleCount] at hfetch hregs
    exact ⟨hcpsr, hfetch, hregs, hmem⟩

/-- **RESET reaches address 0 exactly from a pc that is there already**, up to bit 1, which the
fetch masks: at any point of any run, and right after `arm_create`. -/
theorem resetLaw_iff (h : Host) :
    (∀ actions c, ResetLaw h (run h actions c) ↔
      (run h actions c).pc = 0 ∨ (run h actions c).pc = 2) ∧
    ∀ mem storage cycleCount, CreateLaw h mem storage cycleCount ↔
      storage 15 = 0 ∨ storage 15 = 2 :=
  ⟨fun actions c => resetLaw_iff_pc h (run h actions c),
    fun mem storage cycleCount => createLaw_iff h mem storage cycleCount⟩

/-- A register storage that holds `0x1000` everywhere. -/
theorem not_createLaw :
    ¬ CreateLaw Host.masked (memoryCreate (some fun _ => 0) 64 0) (fun _ => 0x1000) 0 := by
  intro hlaw
  have hfetch := hlaw.fetch ⟨0, 0, 0, 0, 0, 0⟩
  rw [armStep_fetchAddresses] at hfetch
  exact absurd hfetch (by decide)

/-! ## Rejected instructions -/

/-- How the decoding function of a rejected class ends on `w`; `none` for the implemented
classes. -/
def rejection (w : BitVec 32) : Option Ending :=
  match classOf w with
  | .dataProcessing | .loadStore | .branch => none
  | .miscellaneous => some (.returned (armMiscellaneous w))
  | .loadStoreMultiple => some (.returned (armLoadStoreMultiple w))
  | .coprocessorLoadStore => some (.returned (armCoprocessorLoadStore w))
  | .coprocessorOther | .softwareInterrupt => some (armCoprocessorOthersSwi w)

/-- The status of a rejected class is what `arm_step` ends with, after one call of
`arm_exception` with it. -/
def StatusLaw (h : Host) (u : Locals) (c : ArmCore) : Prop :=
  match rejection c.word with
  | none => (armStep h u c).value = 0
  | some ending =>
    .returned (armStep h u c).value = ending ∧ ∀ status, ending = .returned status →
      status ≠ 0 ∧ (armStep h u c).events.filterMap Event.exception? = [BitVec.ofInt 8 status]

theorem rejection_eq_none {w : BitVec 32} :
    rejection w = none ↔
      classOf w = .dataProcessing ∨ classOf w = .loadStore ∨ classOf w = .branch := by
  unfold rejection
  cases classOf w <;> simp

/-- A rejected class never asks for the status 0. -/
theorem rejection_ne_zero {w : BitVec 32} {ending : Ending} (h : rejection w = some ending) :
    ending ≠ .returned 0 := by
  have hswi : armCoprocessorOthersSwi w ≠ .returned 0 := by
    unfold armCoprocessorOthersSwi
    split
    · split <;> decide
    · decide
  have hundefined : Ending.returned UNDEFINED_INSTRUCTION ≠ .returned 0 := by decide
  unfold rejection at h
  cases hclass : classOf w <;> rw [hclass] at h <;> cases h <;>
    first | exact hswi | exact hundefined

/-- **The status law holds for the implemented classes and fails for every rejected word.**
Neither the condition AL nor an in-bounds pc is needed. -/
theorem statusLaw_iff (h : Host) (u : Locals) (c : ArmCore) :
    StatusLaw h u c ↔ classOf c.word = .dataProcessing ∨ classOf c.word = .loadStore ∨
      classOf c.word = .branch := by
  rw [← rejection_eq_none, StatusLaw, armStep_value]
  cases hrej : rejection c.word with
  | none => exact iff_of_true rfl rfl
  | some ending =>
      -- the law would make the rejected class end with the status 0
      refine iff_of_false (fun hlaw => ?_) (by simp)
      exact rejection_ne_zero hrej hlaw.1.symm

/-- `SWI 0`: the status should be SOFTWARE_INTERRUPT. -/
theorem not_statusLaw_swi :
    ¬ StatusLaw Host.masked ⟨0, 0, 0, 0, 0, 0⟩ (executing 0xEF000000 fun _ => 0) := by
  have hrej : rejection (executing 0xEF000000 fun _ => 0).word
      = some (.returned SOFTWARE_INTERRUPT) := by decide
  intro hlaw
  rw [StatusLaw, hrej, armStep_value] at hlaw
  exact absurd hlaw.1 (by decide)

/-! ## Aborts -/

/-- Only the pc and the cycle count differ. -/
def Untouched (c c' : ArmCore) : Prop :=
  (∀ r ≠ 15, c'.reg.rData r = c.reg.rData r) ∧ c'.mem = c.mem

/-- An LDR, LDRB, STR or STRB with condition AL whose range is not inside the memory. -/
structure DataAborts (h : Host) (c : ArmCore) : Prop where
  fetched : c.InBounds
  always : condField c.word = AL
  loadStore : classOf c.word = .loadStore
  encoded : c.word.getLsbD 25 = true → c.word.getLsbD 4 = false
  outside : ¬ c.mem.Inside (armLoadStore h c.word) (accessBytes c.word)

structure AbortLaw (h : Host) (u : Locals) (c : ArmCore) : Prop where
  prefetch : ¬ c.InBounds →
    Untouched c (armStep h u c).state ∧ (armStep h u c).value = PREFETCH_ABORT
  data : DataAborts h c →
    Untouched c (armStep h u c).state ∧ (armStep h u c).value = DATA_ABORT

/-- **No abort is ever reported**: the law holds exactly where none is due. -/
theorem abortLaw_iff (h : Host) (u : Locals) (c : ArmCore) :
    AbortLaw h u c ↔ c.InBounds ∧ ¬ DataAborts h c := by
  -- the status is 0 whatever the step does
  have hprefetch : (armStep h u c).value ≠ PREFETCH_ABORT := by
    rw [armStep_value]
    decide
  have hdata : (armStep h u c).value ≠ DATA_ABORT := by
    rw [armStep_value]
    decide
  constructor
  · intro hlaw
    refine ⟨?_, fun habort => hdata (hlaw.data habort).2⟩
    by_contra hout
    exact hprefetch (hlaw.prefetch hout).2
  · rintro ⟨hin, hnone⟩
    exact ⟨fun hout => absurd hin hout, fun habort => absurd habort hnone⟩

/-- A memory of 64 bytes and a pc at `0x100`. -/
theorem not_abortLaw_outside :
    ¬ AbortLaw Host.masked ⟨0, 0, 0, 0, 0, 0⟩
      ⟨0, ⟨fun _ => 0x100⟩, memoryCreate (some fun _ => 0) 64 0⟩ := by
  intro hlaw
  have hvalue := (hlaw.prefetch (by decide)).2
  rw [armStep_value] at hvalue
  exact absurd hvalue (by decide)

end Armator
