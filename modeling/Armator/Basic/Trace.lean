import Armator.Basic.Core
import Armator.Lib.Brackets

set_option autoImplicit false

/-! # The stack of trace locations (`trace.c`, `trace_location.h`)

Outside `arm_core.c` every access is a macro that pushes its location before the access and pops
it behind: in a comma expression for the writes of registers, as an operand of `+` for the others,
which the compiler may evaluate before or after the access or even among the calls of its
arguments (`TracedText.Order`).
-/

namespace Armator

open Logged Brackets

/-! ## `trace.c` -/

/-- `enabled` and `location_stack_top`. What is in the arrays is printed only. -/
structure TraceState where
  enabled : Bool
  locationStackTop : Int
deriving DecidableEq

/-- The initial values of the two variables. -/
def traceInit : TraceState := ⟨true, -1⟩

/-- A store into one of the two arrays of 128 entries. -/
inductive LocationStore
  | file (index : Int)
  | line (index : Int)
deriving DecidableEq

def LocationStore.index : LocationStore → Int
  | .file index => index
  | .line index => index

abbrev TraceM (α : Type) : Type := LogM TraceState LocationStore α

def traceStartLocation : TraceM Unit := do
  let s ← getState
  if s.enabled then
    modifyState fun s => { s with locationStackTop := s.locationStackTop + 1 }
    let s ← getState
    emit (.file s.locationStackTop)
    emit (.line s.locationStackTop)

def traceEndLocation : TraceM (BitVec 8) := do
  let s ← getState
  if s.enabled then
    modifyState fun s => { s with locationStackTop := s.locationStackTop - 1 }
  return 0

def traceDisable : TraceM Unit := modifyState fun s => { s with enabled := false }

def traceEnable : TraceM Unit := modifyState fun s => { s with enabled := true }

/-! ## `trace_location.h` -/

/-- The fifteen macros. -/
inductive TracedAccess
  | fetch
  | readRegister (reg : Nat)
  | readUsrRegister (reg : Nat)
  | readCpsr
  | readSpsr
  | writeRegister (reg : Nat)
  | writeUsrRegister (reg : Nat)
  | writeCpsr
  | writeSpsr
  | readByte
  | readHalf
  | readWord
  | writeByte
  | writeHalf
  | writeWord
deriving DecidableEq

/-- `END_LOCATION` is an operand of `+`, not the last operand of the comma. -/
def TracedAccess.adds : TracedAccess → Bool
  | .writeRegister _ | .writeUsrRegister _ | .writeCpsr | .writeSpsr => false
  | _ => true

/-- The calls a macro makes: `LOCATION`, `END_LOCATION`, and the function of its name. -/
inductive LocationCall
  | startLocation
  | endLocation
  | access (a : TracedAccess)
deriving DecidableEq

/-- The macros of some code in the order of its text. An argument of a macro may contain
macros. -/
inductive TracedText
  | done
  | access (a : TracedAccess) (arguments rest : TracedText)
deriving DecidableEq

def TracedText.append : TracedText → TracedText → TracedText
  | .done, t => t
  | .access a arguments rest, t => .access a arguments (rest.append t)

instance : Append TracedText := ⟨TracedText.append⟩

/-- A macro without macros among its arguments. -/
def traced (a : TracedAccess) : TracedText := .access a .done .done

/-- `Order t w`: the compiler may evaluate the calls of `t` in the order `w`. -/
inductive TracedText.Order : TracedText → List LocationCall → Prop
  | done : Order .done []
  /-- `(LOCATION, f(arguments)+END_LOCATION)` -/
  | plus {a : TracedAccess} {arguments rest : TracedText} {calls v w w' : List LocationCall}
      (adds : a.adds = true) (inside : Order arguments calls)
      (split : calls ++ [.access a] = v ++ w) (behind : Order rest w') :
      Order (.access a arguments rest) (.startLocation :: (v ++ .endLocation :: w) ++ w')
  /-- `(LOCATION, f(arguments), END_LOCATION)` -/
  | comma {a : TracedAccess} {arguments rest : TracedText} {calls w' : List LocationCall}
      (comma : a.adds = false) (inside : Order arguments calls) (behind : Order rest w') :
      Order (.access a arguments rest)
        (.startLocation :: (calls ++ [.access a] ++ [.endLocation]) ++ w')

/-- Macros of the text and switches of the trace between them. -/
inductive Phase
  | accesses (t : TracedText)
  | disable
  | enable
deriving DecidableEq

/-- A call of `trace.c`, or of an access. -/
inductive TraceCall
  | location (c : LocationCall)
  | disable
  | enable
deriving DecidableEq

/-- An order of evaluation of phases, one behind the other. -/
inductive PhaseOrder : List Phase → List TraceCall → Prop
  | nil : PhaseOrder [] []
  | accesses {t : TracedText} {phases : List Phase} {w : List LocationCall} {ws : List TraceCall}
      (first : t.Order w) (rest : PhaseOrder phases ws) :
      PhaseOrder (.accesses t :: phases) (w.map .location ++ ws)
  | disable {phases : List Phase} {ws : List TraceCall} (rest : PhaseOrder phases ws) :
      PhaseOrder (.disable :: phases) (.disable :: ws)
  | enable {phases : List Phase} {ws : List TraceCall} (rest : PhaseOrder phases ws) :
      PhaseOrder (.enable :: phases) (.enable :: ws)

/-- The accesses print, and leave the stack alone. -/
def TraceCall.run : TraceCall → TraceM Unit
  | .location .startLocation => traceStartLocation
  | .location .endLocation => do let _ ← traceEndLocation
  | .location (.access _) => return ()
  | .disable => traceDisable
  | .enable => traceEnable

def traceRun : List TraceCall → TraceM Unit
  | [] => return ()
  | call :: calls => do
    call.run
    traceRun calls

/-! ## Levels -/

def LocationCall.weight : LocationCall → Int
  | .startLocation => 1
  | .endLocation => -1
  | .access _ => 0

/-- How deep macros stand in the arguments of macros. -/
def TracedText.depth : TracedText → Nat
  | .done => 0
  | .access _ arguments rest => max (arguments.depth + 1) rest.depth

theorem level_access (a : TracedAccess) : Level LocationCall.weight 0 [.access a] :=
  level_singleton rfl

/-- **Every order of evaluation is level**, wherever the locations end. -/
theorem TracedText.Order.level {t : TracedText} {w : List LocationCall} (h : t.Order w) :
    Level LocationCall.weight t.depth w := by
  have hstart : LocationCall.startLocation.weight = 1 := rfl
  have hend : LocationCall.endLocation.weight = -1 := rfl
  have haccess {n : Nat} {calls : List LocationCall} (a : TracedAccess)
      (hcalls : Level LocationCall.weight n calls) :
      Level LocationCall.weight n (calls ++ [.access a]) :=
    hcalls.append ((level_access a).mono (Nat.zero_le n))
  induction h with
  | done => exact level_nil
  | @plus a arguments rest calls v w w' adds inside split behind ihInside ihBehind =>
      have hpair := haccess a ihInside
      rw [split] at hpair
      exact ((hpair.insert hstart hend).mono (le_max_left _ _)).append
        (ihBehind.mono (le_max_right _ _))
  | @comma a arguments rest calls w' comma inside behind ihInside ihBehind =>
      have hpair := haccess a ihInside
      rw [← List.append_nil (calls ++ _)] at hpair
      exact ((hpair.insert hstart hend).mono (le_max_left _ _)).append
        (ihBehind.mono (le_max_right _ _))

/-! ## The stack -/

section

variable {ws ws' : List TraceCall} {w : List LocationCall} {s : TraceState} {n m : Nat}

theorem traceRun_append (ws ws' : List TraceCall) :
    traceRun (ws ++ ws') = traceRun ws >>= fun _ => traceRun ws' := by
  induction ws with
  | nil => rfl
  | cons call ws ih =>
      calc traceRun (call :: ws ++ ws')
          = call.run >>= fun _ => traceRun ws >>= fun _ => traceRun ws' :=
            congrArg (call.run >>= ·) (funext fun _ => ih)
        _ = traceRun (call :: ws) >>= fun _ => traceRun ws' := (LawfulMonad.bind_assoc _ _ _).symm

theorem traceRun_append_eq (ws ws' : List TraceCall) (s : TraceState) :
    traceRun (ws ++ ws') s = ⟨(), (traceRun ws' (traceRun ws s).state).state,
      (traceRun ws s).events ++ (traceRun ws' (traceRun ws s).state).events⟩ := by
  rw [traceRun_append]
  rfl

theorem locationRun_enabled (call : LocationCall) (top : Int) :
    ((TraceCall.location call).run ⟨true, top⟩).state = ⟨true, top + call.weight⟩ := by
  cases call with
  | startLocation => rfl
  | endLocation => rfl
  | access a =>
      have hzero : top + 0 = top := Int.add_zero top
      exact congrArg (TraceState.mk true) hzero.symm

/-- While the trace is enabled the top climbs with the locations. -/
theorem traceRun_enabled (w : List LocationCall) (top : Int) :
    (traceRun (w.map .location) ⟨true, top⟩).state
      = ⟨true, top + climb LocationCall.weight w⟩ := by
  induction w generalizing top with
  | nil => rw [climb_nil, Int.add_zero]; rfl
  | cons call w ih =>
      calc (traceRun ((call :: w).map .location) ⟨true, top⟩).state
          = (traceRun (w.map .location) ((TraceCall.location call).run ⟨true, top⟩).state).state :=
            rfl
        _ = ⟨true, top + call.weight + climb LocationCall.weight w⟩ := by
            rw [locationRun_enabled, ih]
        _ = ⟨true, top + climb LocationCall.weight (call :: w)⟩ := by
            rw [climb_cons, Int.add_assoc]

/-- What is stored is stored where the top is then. -/
theorem traceRun_stores (w : List LocationCall) (top : Int) :
    ∀ e ∈ (traceRun (w.map .location) ⟨true, top⟩).events, ∃ p,
      p ++ [.startLocation] <+: w ∧
        e.index = top + climb LocationCall.weight (p ++ [.startLocation]) := by
  induction w generalizing top with
  | nil => intro e he; cases he
  | cons call w ih =>
      intro e he
      have hevents : (traceRun ((call :: w).map .location) ⟨true, top⟩).events
          = ((TraceCall.location call).run ⟨true, top⟩).events ++ (traceRun (w.map .location)
            ((TraceCall.location call).run ⟨true, top⟩).state).events := rfl
      rw [hevents, locationRun_enabled] at he
      rcases List.mem_append.mp he with hfirst | hrest
      · cases call with
        | startLocation =>
            refine ⟨[], List.cons_prefix_cons.mpr ⟨rfl, List.nil_prefix⟩, ?_⟩
            rcases List.mem_pair.mp hfirst with rfl | rfl <;> rfl
        | endLocation => cases hfirst
        | access a => cases hfirst
      · obtain ⟨p, hp, hindex⟩ := ih (top + call.weight) e hrest
        refine ⟨call :: p, List.cons_prefix_cons.mpr ⟨rfl, hp⟩, ?_⟩
        rw [hindex, List.cons_append, climb_cons, Int.add_assoc]

/-- While the trace is disabled nothing is stored and the top stays. -/
theorem traceRun_disabled (w : List LocationCall) (top : Int) :
    traceRun (w.map .location) ⟨false, top⟩ = ⟨(), ⟨false, top⟩, []⟩ := by
  induction w with
  | nil => rfl
  | cons call w ih =>
      have hcall : ((TraceCall.location call).run ⟨false, top⟩).state = ⟨false, top⟩ ∧
          ((TraceCall.location call).run ⟨false, top⟩).events = [] := by
        cases call <;> exact ⟨rfl, rfl⟩
      have hrun : traceRun ((call :: w).map .location) ⟨false, top⟩
          = ⟨(), (traceRun (w.map .location)
              ((TraceCall.location call).run ⟨false, top⟩).state).state,
            ((TraceCall.location call).run ⟨false, top⟩).events ++ (traceRun (w.map .location)
              ((TraceCall.location call).run ⟨false, top⟩).state).events⟩ := rfl
      rw [hrun, hcall.1, hcall.2, ih]
      rfl

/-- Calls that leave the stack as they find it, and use at most `n` entries above it. -/
structure Neutral (n : Nat) (ws : List TraceCall) : Prop where
  back : ∀ top, (traceRun ws ⟨true, top⟩).state = ⟨true, top⟩
  stores : ∀ top, ∀ e ∈ (traceRun ws ⟨true, top⟩).events, top < e.index ∧ e.index ≤ top + n
  within : ∀ top p, p <+: ws → top ≤ (traceRun p ⟨true, top⟩).state.locationStackTop

theorem neutral_nil (n : Nat) : Neutral n [] := by
  refine ⟨fun top => rfl, fun top e he => ?_, fun top p hp => ?_⟩
  · cases he
  · rw [List.prefix_nil.mp hp]
    exact le_refl top

theorem Neutral.append (h : Neutral n ws) (h' : Neutral n ws') : Neutral n (ws ++ ws') := by
  refine ⟨fun top => ?_, fun top e he => ?_, fun top p hp => ?_⟩
  · rw [traceRun_append_eq, h.back]
    exact h'.back top
  · rw [traceRun_append_eq, h.back] at he
    rcases List.mem_append.mp he with hfirst | hsecond
    · exact h.stores top e hfirst
    · exact h'.stores top e hsecond
  · rcases split_prefix hp with hfirst | ⟨q, rfl, hsecond⟩
    · exact h.within top p hfirst
    · rw [traceRun_append_eq, h.back]
      exact h'.within top q hsecond

/-- Level locations are neutral while the trace is enabled. -/
theorem Neutral.of_level (h : Level LocationCall.weight n w) : Neutral n (w.map .location) := by
  refine ⟨fun top => ?_, fun top e he => ?_, fun top p hp => ?_⟩
  · rw [traceRun_enabled, h.back, Int.add_zero]
  · obtain ⟨p, hp, hindex⟩ := traceRun_stores w top e he
    have hbefore := (h.within p ((List.prefix_append p _).trans hp)).1
    have hafter := (h.within _ hp).2
    have hstart : LocationCall.startLocation.weight = 1 := rfl
    rw [climb_append, climb_cons, climb_nil, hstart] at hafter hindex
    omega
  · obtain ⟨q, hq, rfl⟩ := List.prefix_map_iff.mp hp
    have hlow := (h.within q hq).1
    rw [traceRun_enabled]
    show top ≤ top + climb LocationCall.weight q
    omega

/-- Any locations are neutral while the trace is disabled. -/
theorem Neutral.of_disabled (w : List LocationCall) :
    Neutral n (.disable :: (w.map .location ++ [.enable])) := by
  have hrun (ws : List TraceCall) (top : Int) : traceRun (.disable :: ws) ⟨true, top⟩
      = traceRun ws ⟨false, top⟩ := rfl
  refine ⟨fun top => ?_, fun top e he => ?_, fun top p hp => ?_⟩
  · rw [hrun, traceRun_append_eq, traceRun_disabled]
    rfl
  · rw [hrun, traceRun_append_eq, traceRun_disabled] at he
    cases he
  · rcases List.prefix_cons_iff.mp hp with rfl | ⟨q, rfl, hq⟩
    · exact le_refl top
    · rw [hrun]
      rcases split_prefix hq with hfirst | ⟨r, rfl, hsecond⟩
      · obtain ⟨v, -, rfl⟩ := List.prefix_map_iff.mp hfirst
        rw [traceRun_disabled]
      · rw [traceRun_append_eq, traceRun_disabled]
        rcases List.prefix_cons_iff.mp hsecond with rfl | ⟨t, rfl, ht⟩
        · exact le_refl top
        · rw [List.prefix_nil.mp ht]
          exact le_refl top

end

end Armator
