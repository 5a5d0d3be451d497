import Armator.Semantics.Frame

set_option autoImplicit false

/-! # Runs of the simulator

The processor is moved by the calls of `arm_step` and by the bytes the irq listener hands to
`arm_exception`, in any order.
-/

namespace Armator

inductive Action
  | step (u : Locals)
  | irq (exception : BitVec 8)

def Action.perform (h : Host) (c : ArmCore) : Action → ArmCore
  | .step u => (armStep h u c).state
  | .irq exception => (armException exception c).state

def run (h : Host) (actions : List Action) (c : ArmCore) : ArmCore :=
  actions.foldl (Action.perform h) c

theorem armException_reset_state (c : ArmCore) :
    (armException (BitVec.ofInt 8 RESET) c).state = c.setReg 16 0x1d3 :=
  (armException_reset_runs c).state

/-! ## What a run emits -/

def Action.call (h : Host) : Action → ArmM Unit
  | .step u => do
    let _result ← armStep h u
    return ()
  | .irq exception => armException exception

/-- The calls of a run, one after the other. -/
def calls (h : Host) : List Action → ArmM Unit
  | [] => return ()
  | a :: actions => do
    a.call h
    calls h actions

theorem Action.call_state (h : Host) (c : ArmCore) (a : Action) :
    (a.call h c).state = a.perform h c := by
  cases a <;> rfl

theorem calls_state (h : Host) (actions : List Action) (c : ArmCore) :
    (calls h actions c).state = run h actions c := by
  induction actions generalizing c with
  | nil => rfl
  | cons a actions ih =>
      show (calls h actions (a.call h c).state).state = run h actions (a.perform h c)
      rw [ih, a.call_state]

theorem AccessProperty.calls {P : {α : Type} → ArmM α → Prop} (hP : AccessProperty P) (h : Host)
    (actions : List Action) : P (Armator.calls h actions) := by
  induction actions with
  | nil => exact hP.pure ()
  | cons a actions ih =>
      refine hP.bind ?_ fun _ => ih
      cases a with
      | step u => exact hP.bind (hP.armStep h u) fun _ => hP.pure ()
      | irq exception => exact hP.exception exception

/-! ## Steps alone -/

/-- The processor after `n` calls of `arm_step`. -/
def ArmCore.after (h : Host) (us : Nat → Locals) (c : ArmCore) : Nat → ArmCore
  | 0 => c
  | n + 1 => (armStep h (us n) (c.after h us n)).state

theorem ArmCore.after_succ (h : Host) (us : Nat → Locals) (c : ArmCore) (n : Nat) :
    c.after h us (n + 1) = stepState h (us n) (c.after h us n) := armStep_state _ _ _

theorem ArmCore.after_memory (h : Host) (us : Nat → Locals) (c : ArmCore) (n : Nat) :
    (c.after h us n).mem.size = c.mem.size ∧
      (c.after h us n).mem.isBigEndian = c.mem.isBigEndian := by
  induction n with
  | zero => exact ⟨rfl, rfl⟩
  | succ n ih =>
      rw [ArmCore.after_succ]
      exact ⟨stepState_size.trans ih.1, stepState_isBigEndian.trans ih.2⟩

/-- Steps do not touch the status registers. -/
theorem ArmCore.after_status (h : Host) (us : Nat → Locals) (c : ArmCore) (n : Nat) {r : Nat}
    (hr : 16 ≤ r) : (c.after h us n).reg.rData r = c.reg.rData r := by
  induction n with
  | zero => rfl
  | succ n ih =>
      rw [ArmCore.after_succ]
      exact (stepState_status hr).trans ih

end Armator
