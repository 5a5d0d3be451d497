import Armator.Semantics.Locations

set_option autoImplicit false

/-! # The stack of trace locations

Over any calls of `arm_step`, `arm_exception` and the handlers, and in any order the compiler
evaluates the macros in, the stack of locations is empty again and the trace enabled after each
call, and at most two of its 128 entries are used (`traceStackLaw`).
-/

namespace Armator

open Logged Brackets CString

/-- What is asked of the calls of `trace.c` that `calls` make from `g` on, in whatever order they
are evaluated. -/
structure TraceStackLaw (cfg : GdbConfig) (calls : List SimCall) (g : Gdb) : Prop where
  /-- There is an order, and each is one of the accesses made. -/
  ordered : ∃ wss, SimOrder cfg calls g wss
  accesses : ∀ wss, SimOrder cfg calls g wss → wss.flatten.flatMap TraceCall.marks
    = (simRun cfg calls g).events.filterMap GdbEvent.mark?
  /-- After each of the calls, and before the first. -/
  after : ∀ wss, SimOrder cfg calls g wss → ∀ n,
    (traceRun (wss.take n).flatten traceInit).state = traceInit
  stores : ∀ wss, SimOrder cfg calls g wss →
    ∀ e ∈ (traceRun wss.flatten traceInit).events, 0 ≤ e.index ∧ e.index ≤ 127
  top : ∀ wss, SimOrder cfg calls g wss → ∀ p, p <+: wss.flatten →
    -1 ≤ (traceRun p traceInit).state.locationStackTop

/-! ## Orders -/

/-- The order of the text. -/
theorem TracedText.exists_order (t : TracedText) : ∃ w, t.Order w := by
  induction t with
  | done => exact ⟨[], .done⟩
  | access a arguments rest ihArguments ihRest =>
      obtain ⟨calls, hcalls⟩ := ihArguments
      obtain ⟨w', hw'⟩ := ihRest
      cases hadds : a.adds with
      | true => exact ⟨_, .plus hadds hcalls (List.append_nil _).symm hw'⟩
      | false => exact ⟨_, .comma hadds hcalls hw'⟩

theorem exists_phaseOrder (phases : List Phase) : ∃ ws, PhaseOrder phases ws := by
  induction phases with
  | nil => exact ⟨[], .nil⟩
  | cons phase phases ih =>
      obtain ⟨ws, hws⟩ := ih
      cases phase with
      | accesses t =>
          obtain ⟨w, hw⟩ := t.exists_order
          exact ⟨_, .accesses hw hws⟩
      | disable => exact ⟨_, .disable hws⟩
      | enable => exact ⟨_, .enable hws⟩

theorem exists_simOrder (cfg : GdbConfig) (calls : List SimCall) (g : Gdb) :
    ∃ wss, SimOrder cfg calls g wss := by
  induction calls generalizing g with
  | nil => exact ⟨[], .nil g⟩
  | cons call calls ih =>
      obtain ⟨ws, hws⟩ := exists_phaseOrder (call.phases cfg g.arm)
      cases hvalue : (call.run cfg g).value with
      | ok u =>
          obtain ⟨wss, hwss⟩ := ih (call.run cfg g).state
          exact ⟨_, .next hvalue hws hwss⟩
      | error fault => exact ⟨_, .fault hvalue hws⟩

/-! ## Depths -/

section

variable {t t' : TracedText} {n : Nat}

theorem TracedText.depth_append (t t' : TracedText) : (t ++ t').depth = max t.depth t'.depth := by
  induction t with
  | done => exact (Nat.zero_max _).symm
  | access a arguments rest ihArguments ihRest =>
      show max (arguments.depth + 1) (rest ++ t').depth = _
      rw [ihRest, ← Nat.max_assoc]
      rfl

/-- No macro of `t` stands more than once inside another. -/
def Shallow (t : TracedText) : Prop := t.depth ≤ 2

namespace Shallow

theorem done : Shallow .done := Nat.zero_le 2

theorem traced (a : TracedAccess) : Shallow (Armator.traced a) := Nat.le_succ 1

theorem append (h : Shallow t) (h' : Shallow t') : Shallow (t ++ t') := by
  rw [Shallow, TracedText.depth_append]
  exact max_le h h'

theorem ite {P : Prop} [Decidable P] (h : Shallow t) (h' : Shallow t') :
    Shallow (if P then t else t') := by
  split
  · exact h
  · exact h'

/-- The read inside the write of the pc. -/
theorem writePcLocations : Shallow Armator.writePcLocations := Nat.le_refl 2

theorem updateFlagLocations (h : Host) (flag : BitVec 32) (x : BitVec 64) :
    Shallow (Armator.updateFlagLocations h flag x) := by
  have hread := traced .readCpsr
  exact hread.append (ite ((ite hread done).append ((ite hread done).append
    (ite (hread.append hread) done))) done)

theorem shiftedRegisterOperandLocations (ins : BitVec 32) :
    Shallow (Armator.shiftedRegisterOperandLocations ins) := by
  have hcarry := traced .readCpsr
  refine (traced _).append ?_
  generalize (getBits ins 6 4).toNat = bits4_6
  match bits4_6 with
  | 0 | 1 | 3 | 5 | _ + 7 => exact ite hcarry done
  | 2 | 4 | 6 => exact done

theorem dataProcessingOperandLocations (u : Locals) (res : BitVec 32) :
    Shallow (Armator.dataProcessingOperandLocations u res) :=
  ite (ite ((traced _).append (traced _)) (shiftedRegisterOperandLocations res))
    (ite (traced _) done)

theorem dataProcessingLocations (h : Host) (flag opcode operand1 operand2 : BitVec 32) (rd : Nat) :
    Shallow (Armator.dataProcessingLocations h flag opcode operand1 operand2 rd) := by
  have hread := traced .readCpsr
  have hwrite := traced (.writeRegister rd)
  have hresult (x : BitVec 32) := hwrite.append (updateFlagLocations h flag (x.setWidth 64))
  unfold Armator.dataProcessingLocations
  generalize opcode.toNat = k
  match k with
  | 0 | 1 | 2 | 3 | 4 | 14 => exact hresult _
  | 5 | 6 | 7 => exact hread.append (hresult _)
  | 8 | 9 => exact hread.append (hread.append hread)
  | 10 | 11 => exact hread.append (hread.append (ite (hread.append hread) done))
  | 12 => exact (updateFlagLocations h flag _).append hwrite
  | 13 | _ + 15 => exact hwrite

theorem loadStoreByteOrWordLocations (bit20 bit22 : BitVec 32) (rd : Nat) :
    Shallow (Armator.loadStoreByteOrWordLocations bit20 bit22 rd) :=
  ite ((traced _).append (traced _)) <| ite ((traced _).append (traced _)) <|
    ite ((traced _).append (ite (traced _) (traced _))) ((traced _).append (traced _))

theorem armBranchLocations (ins : BitVec 32) : Shallow (Armator.armBranchLocations ins) :=
  ite writePcLocations ((traced _).append ((traced _).append writePcLocations))

theorem executeFetchedLocations (h : Host) (u : Locals) (res instr : BitVec 32) (c : ArmCore) :
    Shallow (Armator.executeFetchedLocations h u res instr c) := by
  have hconditional {t : TracedText} (P : Prop) [Decidable P] (ht : Shallow t) :
      Shallow (conditionPassedLocations ++ if P then t else .done) :=
    (traced .readCpsr).append (ite ht done)
  refine (traced _).append ?_
  generalize (getBits res 27 26).toNat = bits26_27
  match bits26_27 with
  | 0 =>
      exact ite done (hconditional _ ((dataProcessingOperandLocations u res).append
        (dataProcessingLocations h _ _ _ _ _)))
  | 1 => exact hconditional _ ((traced _).append (loadStoreByteOrWordLocations _ _ _))
  | 2 => exact ite done (hconditional _ (armBranchLocations instr))
  | _ + 3 => exact done

theorem armExceptionLocations (exception : BitVec 8) :
    Shallow (Armator.armExceptionLocations exception) :=
  ite ((traced _).append (traced _)) done

theorem armStepLocations (h : Host) (u : Locals) (c : ArmCore) :
    Shallow (Armator.armStepLocations h u c) :=
  ((traced _).append (executeFetchedLocations h u _ _ _)).append
    (ite (armExceptionLocations _) done)

end Shallow

end

/-! ## Calls -/

/-- In any order of evaluation, phases leave the stack as they find it. -/
def Contained (phases : List Phase) : Prop := ∀ ws, PhaseOrder phases ws → Neutral 2 ws

namespace Contained

variable {phases : List Phase} {t : TracedText}

theorem nil : Contained [] := by
  intro ws hws
  cases hws
  exact neutral_nil 2

theorem accesses (ht : Shallow t) (h : Contained phases) : Contained (.accesses t :: phases) := by
  intro ws hws
  cases hws with
  | accesses first rest => exact (Neutral.of_level (first.level.mono ht)).append (h _ rest)

/-- Behind accesses of any depth that are not traced. -/
theorem untraced (t : TracedText) (h : Contained phases) :
    Contained (Armator.untraced t ++ phases) := by
  intro ws hws
  cases hws with
  | disable hbehind =>
      cases hbehind with
      | @accesses _ _ w _ first hend =>
          cases hend with
          | @enable _ ws rest =>
              have hwords : TraceCall.disable :: (w.map .location ++ .enable :: ws)
                  = .disable :: (w.map .location ++ [.enable]) ++ ws := by
                rw [List.cons_append, List.append_assoc]
                rfl
              rw [hwords]
              exact (Neutral.of_disabled w).append (h ws rest)

/-- Accesses that are not traced, and no others. -/
theorem onlyUntraced (t : TracedText) : Contained (Armator.untraced t) := untraced t nil

theorem ite {P : Prop} [Decidable P] {phases' : List Phase} (h : Contained phases)
    (h' : Contained phases') : Contained (if P then phases else phases') := by
  split
  · exact h
  · exact h'

/-- Every iteration of `cont` enables the trace again. -/
theorem contLoopPhases (cfg : GdbConfig) (u : GdbLocals) (fuel k : Nat) (instruction : BitVec 32)
    (c : ArmCore) : Contained (Armator.contLoopPhases cfg u fuel k instruction c) := by
  induction fuel generalizing k instruction c with
  | zero => exact nil
  | succ fuel ih =>
      exact untraced _ (ite nil (accesses (.armStepLocations cfg.host (u.steps k) c) (ih _ _ _)))

theorem commandPhases (cfg : GdbConfig) (u : GdbLocals) (data : List Byte) (c : ArmCore)
    (command : Command) : Contained (command.phases cfg u data c) := by
  cases command with
  | cont => exact contLoopPhases cfg u u.fuel 0 u.instruction c
  | readGeneralRegisters | writeGeneralRegisters => exact onlyUntraced _
  | readRegister => exact ite (onlyUntraced _) nil
  | step => exact accesses (.armStepLocations cfg.host (u.steps 0) c) nil
  | writeRegister =>
      show Contained (writeRegisterPhases u data)
      unfold writeRegisterPhases
      cases index data (chr '=') with
      | none => exact nil
      | some k => exact ite (onlyUntraced _) nil
  | killRequest | query | readMemory | reason | setThread | writeMemoryBinary => exact nil

theorem callPhases (cfg : GdbConfig) (c : ArmCore) (call : SimCall) :
    Contained (call.phases cfg c) := by
  cases call with
  | armStep u => exact accesses (.armStepLocations cfg.host u c) nil
  | armException exception => exact accesses (.armExceptionLocations exception) nil
  | handler command u data => exact commandPhases cfg u data c command

end Contained

/-! ## Runs -/

section

variable {cfg : GdbConfig} {calls : List SimCall} {g : Gdb} {wss : List (List TraceCall)}

theorem SimOrder.neutral (h : SimOrder cfg calls g wss) : ∀ ws ∈ wss, Neutral 2 ws := by
  induction h with
  | nil g => intro ws hws; cases hws
  | next returns order rest ih =>
      intro ws hws
      rcases List.mem_cons.mp hws with rfl | hrest
      · exact Contained.callPhases cfg _ _ ws order
      · exact ih ws hrest
  | fault stops order =>
      intro ws hws
      rw [List.mem_singleton.mp hws]
      exact Contained.callPhases cfg _ _ _ order

theorem neutral_flatten {n : Nat} (h : ∀ ws ∈ wss, Neutral n ws) : Neutral n wss.flatten := by
  induction wss with
  | nil => exact neutral_nil n
  | cons ws wss ih =>
      have hrest : ∀ ws' ∈ wss, Neutral n ws' := fun ws' hws' =>
        h ws' (List.mem_cons_of_mem ws hws')
      exact (h ws List.mem_cons_self).append (ih hrest)

end

/-- **The stack of locations is balanced**, and two entries of its arrays are enough. -/
theorem traceStackLaw (cfg : GdbConfig) (calls : List SimCall) (g : Gdb) :
    TraceStackLaw cfg calls g where
  ordered := exists_simOrder cfg calls g
  accesses wss hwss := hwss.marks
  after wss hwss n := by
    have hprefix : ∀ ws ∈ wss.take n, Neutral 2 ws := fun ws hws =>
      hwss.neutral ws (List.mem_of_mem_take hws)
    exact (neutral_flatten hprefix).back (-1)
  stores wss hwss e he := by
    obtain ⟨hlow, hhigh⟩ := (neutral_flatten hwss.neutral).stores (-1) e he
    exact ⟨by omega, by omega⟩
  top wss hwss p hp := (neutral_flatten hwss.neutral).within (-1) p hp

end Armator
