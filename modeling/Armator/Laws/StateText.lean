import Armator.Basic.StateText
import Armator.Laws.TraceText

set_option autoImplicit false

/-! # The text of the state

With `--trace-state` alone, the trace of a run is the states behind its steps, one after the other,
and no more can be told from it than the registers and the CPSR of each (`stateTrace_iff`): the rows
of the modes all show the registers of the current one. As in `Laws/TraceFile.lean`, the trace goes
to a file of its own.
-/

namespace Armator

open Logged CString Readable

/-! ## What is written -/

/-- `--trace-state` alone -/
structure Tracer.StateAlone (s : Tracer) : Prop where
  state : s.prints STATE = true
  memory : s.prints MEMORY = false
  registers : s.prints REGISTERS = false

/-- The texts alone, without the traced calls. -/
def writtenText : List Printing → Option (List Byte)
  | [] => some []
  | .text printed :: ps => do
    let printed ← printed
    let rest ← writtenText ps
    return printed ++ rest
  | .call _ :: ps => writtenText ps

theorem Tracer.StateAlone.next {s : Tracer} (h : s.StateAlone) : s.next.StateAlone where
  state := (s.next_prints STATE).trans h.state
  memory := (s.next_prints MEMORY).trans h.memory
  registers := (s.next_prints REGISTERS).trans h.registers

/-- A call prints nothing. -/
theorem Tracer.StateAlone.call {s : Tracer} (h : s.StateAlone) (f : TraceFormat) (e : Event) :
    ∃ s' : Tracer, s'.StateAlone ∧ e.text f s = some ([], s') := by
  have hoff {flag : BitVec 32} (hflag : s.prints flag = false) : ¬s.prints flag = true := by
    rw [hflag]
    exact Bool.false_ne_true
  cases e with
  | memory =>
      refine ⟨s.next, h.next, ?_⟩
      rw [Event.text, traceMemoryText, if_neg (hoff h.memory)]
  | register =>
      refine ⟨s.next, h.next, ?_⟩
      rw [Event.text, traceRegisterText, if_neg (hoff h.registers)]
      rfl
  | exception => exact ⟨s, h, rfl⟩

theorem printedText_alone {f : TraceFormat} {s : Tracer} (h : s.StateAlone) (ps : List Printing) :
    printedText f ps s = writtenText ps := by
  induction ps generalizing s with
  | nil => rfl
  | cons p ps ih =>
      cases p with
      | text printed => rw [printedText, writtenText, ih h]
      | call e =>
          obtain ⟨s', hs', he⟩ := h.call f e
          rw [printedText, writtenText, he, ← ih hs']
          exact Option.bind_fun_some _

theorem writtenText_append {ps ps' : List Printing} {t t' : List Byte}
    (h : writtenText ps = some t) (h' : writtenText ps' = some t') :
    writtenText (ps ++ ps') = some (t ++ t') := by
  induction ps generalizing t with
  | nil =>
      obtain rfl : [] = t := Option.some.inj h
      exact h'
  | cons p ps ih =>
      cases p with
      | text printed =>
          obtain ⟨first, hprinted, hrest⟩ := Option.bind_eq_some_iff.mp h
          obtain ⟨rest, hps, ht⟩ := Option.bind_eq_some_iff.mp hrest
          obtain rfl : first ++ rest = t := Option.some.inj ht
          rw [List.cons_append, writtenText, hprinted, ih hps, List.append_assoc]
          rfl
      | call e => exact ih h

/-- From `c`, `m` returns `a`, ends in `c'` and writes `t`. -/
structure WritesText {α : Type} (m : PrintM α) (c : ArmCore) (a : α) (c' : ArmCore)
    (t : List Byte) : Prop where
  value : (m c).value = a
  state : (m c).state = c'
  text : writtenText (m c).events = some t

namespace WritesText

variable {α β : Type} {m : PrintM α} {f : α → PrintM β} {c c' c'' : ArmCore} {a : α} {b : β}
  {t t' : List Byte}

theorem pure (a : α) (c : ArmCore) : WritesText (Pure.pure a) c a c [] := ⟨rfl, rfl, rfl⟩

theorem bind (h : WritesText m c a c' t) (hf : WritesText (f a) c' b c'' t') :
    WritesText (m >>= f) c b c'' (t ++ t') := by
  obtain ⟨rfl, rfl, ht⟩ := h
  obtain ⟨rfl, rfl, ht'⟩ := hf
  exact ⟨rfl, rfl, writtenText_append ht ht'⟩

/-- `bind` after a program that writes nothing. -/
theorem nothingBind (h : WritesText m c a c' []) (hf : WritesText (f a) c' b c'' t) :
    WritesText (m >>= f) c b c'' t := h.bind hf

theorem fprintf (t : List Byte) (c : ArmCore) : WritesText (fprintf (some t)) c () c t :=
  ⟨rfl, rfl, congrArg some (List.append_nil t)⟩

/-- A text in front of the rest, if `P`. -/
theorem iteText {P : Prop} [Decidable P] {k : Unit → PrintM β} (t : List Byte)
    (h : WritesText (k ()) c b c' t') :
    WritesText (if P then Armator.fprintf (some t) >>= k else k ()) c b c'
      ((if P then t else []) ++ t') := by
  by_cases hP : P
  · rw [if_pos hP, if_pos hP]
    exact (fprintf t c).bind h
  · rw [if_neg hP, if_neg hP]
    exact h

theorem reading (m : ArmM α) (c : ArmCore) :
    WritesText (reading m) c (m c).value (m c).state [] := by
  have hcalls (es : List Event) : writtenText (es.map .call) = some [] := by
    induction es with
    | nil => rfl
    | cons e es ih => exact ih
  exact ⟨rfl, rfl, hcalls _⟩

end WritesText

/-! ## The text of a state -/

/-- The sixteen registers as they are read, and the CPSR. -/
abbrev Shown := List (BitVec 32) × BitVec 32

def ArmCore.shown (c : ArmCore) : Shown := ((List.range 16).map c.regValue, c.cpsr)

namespace Shown

/-- What the row of a mode shows of a register. The registers of the user mode are not read from
another one. -/
def inRow (x : Shown) (mode : BitVec 8) (reg : Nat) : BitVec 32 :=
  if mode = USR then
    if (x.2 &&& 0b11111).setWidth 8 = USR then x.1.getD reg 0 else if reg = 15 then 4 else 0
  else x.1.getD reg 0

def cellText (x : Shown) (mode : BitVec 8) (reg : Nat) : List Byte :=
  (if reg > 0 ∧ reg % 5 = 0 then lineBreak else []) ++
    (registerText reg (x.inRow mode reg)).getD []

def modeText (mode : BitVec 8) (x : Shown) : List Byte :=
  match armGetModeName mode with
  | some (some name) =>
    (if mode ≠ SYS then name ++ text [':'] else []) ++
      ((List.range 16).flatMap (x.cellText mode) ++
        ((if mode = USR then text [' ', ' ', 'C', 'P', 'S', 'R', '='] ++ upperHex8 x.2 else []) ++
          modeEnd mode))
  | _ => []

def text (x : Shown) : List Byte := (List.range 32).flatMap fun k => modeText (BitVec.ofNat 8 k) x

end Shown

section

variable {mode : BitVec 8} {c : ArmCore} {reg : Nat}

theorem shown_getD (c : ArmCore) (h : reg < 16) : c.shown.1.getD reg 0 = c.regValue reg := by
  show ((List.range 16).map c.regValue).getD reg 0 = c.regValue reg
  rw [List.getD_eq_getElem?_getD, List.getElem?_map, List.getElem?_range h]
  rfl

theorem armReadUsrRegister_value (c : ArmCore) (h : reg < 16) :
    (armReadUsrRegister reg c).value = c.shown.inRow USR reg := by
  have hread : readUsrRegister c.reg reg
      = if getMode c.reg = USR then c.reg.rData reg else 0 := by
    unfold readUsrRegister inAPrivilegedMode
    by_cases husr : getMode c.reg = USR <;> simp [husr]
  have hrow : c.shown.inRow USR reg
      = if getMode c.reg = USR then c.shown.1.getD reg 0 else if reg = 15 then 4 else 0 := rfl
  show (if reg = 15 then (readUsrRegister c.reg reg + 4) &&& 0xFFFFFFFD
    else readUsrRegister c.reg reg) = _
  rw [hrow, hread, shown_getD c h, ArmCore.regValue]
  by_cases husr : getMode c.reg = USR
  · rw [if_pos husr, if_pos husr]
    by_cases hreg : reg = 15
    · subst hreg
      rfl
    · rw [if_neg hreg, if_neg hreg]
  · rw [if_neg husr, if_neg husr]
    rfl

theorem inRow_current (h : mode ≠ USR) (c : ArmCore) (hreg : reg < 16) :
    c.shown.inRow mode reg = c.regValue reg := by
  rw [Shown.inRow, if_neg h, shown_getD c hreg]

theorem registerText_isSome (h : reg < 18) (value : BitVec 32) :
    registerText reg value = some ((registerText reg value).getD []) := by
  obtain ⟨name, hname⟩ := armGetRegisterName_isSome h
  rw [registerText, hname]
  rfl

/-- A register behind its break. -/
theorem writes_cell {m : PrintM (BitVec 32)} {f : PrintM Unit} {t : List Byte}
    (hreg : reg < 16) (hm : WritesText m c (c.shown.inRow mode reg) c [])
    (hf : WritesText f c () c t) :
    WritesText (do
        if reg > 0 ∧ reg % 5 = 0 then fprintf (some lineBreak)
        fprintf (registerText reg (← m))
        f) c () c (c.shown.cellText mode reg ++ t) := by
  have htext : WritesText (fprintf (registerText reg (c.shown.inRow mode reg))) c () c
      ((registerText reg (c.shown.inRow mode reg)).getD []) := by
    rw [registerText_isSome (by omega)]
    exact .fprintf _ c
  rw [Shown.cellText, List.append_assoc]
  exact .iteText _ (hm.nothingBind (htext.bind hf))

theorem writes_printRegisters (c : ArmCore) {n k count : Nat} (hk : k + n ≤ 16)
    (hcount : mode ≠ USR → count = k) :
    WritesText (printRegisters mode (List.range' k n) count) c () c
      ((List.range' k n).flatMap (c.shown.cellText mode)) := by
  induction n generalizing k count with
  | zero => exact .pure () c
  | succ n ih =>
      rw [List.range'_succ, List.flatMap_cons, printRegisters]
      by_cases hmode : mode = USR
      · rw [if_pos hmode]
        subst hmode
        have hread : WritesText (reading (armReadUsrRegister k)) c (c.shown.inRow USR k) c [] := by
          rw [← armReadUsrRegister_value c (by omega)]
          exact .reading _ c
        exact writes_cell (by omega) hread (ih (by omega) fun h => absurd rfl h)
      · rw [if_neg hmode, hcount hmode]
        have hread : WritesText (reading (armReadRegister k)) c (c.shown.inRow mode k) c [] := by
          rw [inRow_current hmode c (by omega), ← (armReadRegister_runs k c).value]
          exact .reading _ c
        exact writes_cell (by omega) hread (ih (by omega) fun _ => rfl)

theorem writes_printMode (c : ArmCore) (h : mode.toNat < 32) :
    WritesText (printMode mode) c () c (c.shown.modeText mode) := by
  have hsome : ∃ name, armGetModeName mode = some name := ⟨_, List.getElem?_eq_getElem h⟩
  obtain ⟨_ | name, hname⟩ := hsome
  · rw [printMode, Shown.modeText, hname]
    exact .pure () c
  · rw [printMode, Shown.modeText, hname]
    have hrow : WritesText (printRegisters mode (List.range 16) 0) c () c
        ((List.range 16).flatMap (c.shown.cellText mode)) := by
      rw [List.range_eq_range']
      exact writes_printRegisters c (Nat.le_refl _) fun _ => rfl
    refine .iteText _ (hrow.bind ?_)
    by_cases hmode : mode = USR
    · rw [if_pos hmode, if_pos hmode]
      exact (WritesText.reading armReadCpsr c).nothingBind ((WritesText.fprintf _ c).bind
        (.fprintf _ c))
    · rw [if_neg hmode, if_neg hmode]
      exact .fprintf _ c

/-- **What `arm_print_state` writes.** -/
theorem writes_armPrintState (c : ArmCore) :
    WritesText armPrintState c () c c.shown.text := by
  have hmodes (modes : List Nat) (h : ∀ k ∈ modes, k < 32) :
      WritesText (printModes modes) c () c
        (modes.flatMap fun k => c.shown.modeText (BitVec.ofNat 8 k)) := by
    induction modes with
    | nil => exact .pure () c
    | cons k modes ih =>
        obtain ⟨hk, hrest⟩ := List.forall_mem_cons.mp h
        have hmode : (BitVec.ofNat 8 k).toNat < 32 := by
          rw [BitVec.toNat_ofNat]
          omega
        exact (writes_printMode c hmode).bind (ih hrest)
  exact hmodes _ fun k hk => List.mem_range.mp hk

end

/-! ## Reading it back -/

section

/-- Sixteen registers. -/
def Shown.Full (x : Shown) : Prop := x.1.length = 16

theorem shown_full (c : ArmCore) : c.shown.Full := by simp [ArmCore.shown, Shown.Full]

theorem reads_cell (mode : BitVec 8) {reg : Nat} (h : reg < 16) :
    Reads Shown.Full (fun x => x.cellText mode reg) fun x => x.inRow mode reg := by
  obtain ⟨name, hname⟩ := armGetRegisterName_isSome (show reg < 18 by omega)
  have hcell (x : Shown) : x.cellText mode reg
      = (if reg > 0 ∧ reg % 5 = 0 then lineBreak else []) ++
        (text [' ', ' ', ' '] ++ right3 name ++ text ['='] ++ upperHex8 (x.inRow mode reg)) := by
    rw [Shown.cellText, registerText, hname]
    rfl
  simp only [hcell]
  exact ((reads_upperHex8 _).behind _).behind _

theorem reads_row (mode : BitVec 8) :
    Reads Shown.Full (fun x => (List.range 16).flatMap (x.cellText mode))
      fun x => (List.range 16).map (x.inRow mode) :=
  .sequence _ fun _ hreg => reads_cell mode (List.mem_range.mp hreg)

/-- What can be told from the text of a mode. -/
def Shown.inMode (mode : BitVec 8) (x : Shown) : List (BitVec 32) × Option (BitVec 32) :=
  match armGetModeName mode with
  | some (some _) =>
    ((List.range 16).map (x.inRow mode), if mode = USR then some x.2 else none)
  | _ => ([], none)

theorem reads_mode (mode : BitVec 8) :
    Reads Shown.Full (Shown.modeText mode) (Shown.inMode mode) := by
  unfold Shown.modeText Shown.inMode
  rcases armGetModeName mode with _ | _ | name
  · exact (Reads.const Shown.Full []).map fun _ => ([], none)
  · exact (Reads.const Shown.Full []).map fun _ => ([], none)
  · have hcpsr : Reads Shown.Full (fun x => if mode = USR then
          text [' ', ' ', 'C', 'P', 'S', 'R', '='] ++ upperHex8 x.2 else [])
        fun x => if mode = USR then some x.2 else none := by
      by_cases hmode : mode = USR
      · simp only [if_pos hmode]
        exact ((reads_upperHex8 fun x : Shown => x.2).behind _).map some
      · simp only [if_neg hmode]
        exact (Reads.const Shown.Full []).map fun _ => none
    exact ((reads_row mode).append (hcpsr.before _)).behind _

/-- The rows of the first two modes with a name tell everything. -/
theorem Shown.told {x : Shown} (h : x.Full) :
    (x.inMode FIQ).1 = x.1 ∧ (x.inMode USR).2 = some x.2 := by
  constructor
  · show (List.range 16).map (x.inRow FIQ) = x.1
    refine List.ext_getElem ?_ fun reg _ hreg => ?_
    · rw [List.length_map, List.length_range, h]
    · rw [List.getElem_map, List.getElem_range]
      show x.1.getD reg 0 = x.1[reg]
      rw [List.getD_eq_getElem?_getD, List.getElem?_eq_getElem hreg]
      rfl
  · rfl

/-- **A state can be read back.** -/
theorem reads_state : Reads Shown.Full Shown.text id := by
  have hmodes : Reads Shown.Full Shown.text
      fun x => (List.range 32).map fun k => x.inMode (BitVec.ofNat 8 k) :=
    .sequence _ fun k _ => reads_mode (BitVec.ofNat 8 k)
  intro x x' s s' hx hx' heq
  obtain ⟨hrows, hs⟩ := hmodes x x' s s' hx hx' heq
  have hmode {k : Nat} (hk : k < 32) :
      x.inMode (BitVec.ofNat 8 k) = x'.inMode (BitVec.ofNat 8 k) :=
    List.map_inj_left.mp hrows k (List.mem_range.mpr hk)
  have hfiq : x.inMode FIQ = x'.inMode FIQ := hmode (k := 17) (by decide)
  have husr : x.inMode USR = x'.inMode USR := hmode (k := 16) (by decide)
  have hregisters : x.1 = x'.1 := by rw [← (Shown.told hx).1, hfiq, (Shown.told hx').1]
  have hcpsr : x.2 = x'.2 := by
    refine Option.some.inj ?_
    rw [← (Shown.told hx).2, husr, (Shown.told hx').2]
  exact ⟨Prod.ext hregisters hcpsr, hs⟩

theorem Shown.text_ne (x : Shown) : x.text ≠ [] := by
  intro h
  have husr : x.modeText USR = [] := List.flatMap_eq_nil_iff.mp h 16 (by decide)
  cases husr

end

/-! ## Runs -/

/-- `step` and `cont` call `trace_arm_state` behind `arm_step`. -/
def traceBehind (s : Tracer) : Action → PrintM Unit
  | .step _ => traceArmState s
  | .irq _ => return ()

def tracedActions (s : Tracer) (h : Host) : List Action → PrintM Unit
  | [] => return ()
  | a :: actions => do
    reading (a.call h)
    traceBehind s a
    tracedActions s h actions

/-- The states behind the steps. -/
def statesBehind (h : Host) : List Action → ArmCore → List ArmCore
  | [], _ => []
  | .step u :: actions, c =>
    (armStep h u c).state :: statesBehind h actions (armStep h u c).state
  | .irq exception :: actions, c => statesBehind h actions (armException exception c).state

section

variable {s : Tracer} {h h' : Host} {actions actions' : List Action} {c c' : ArmCore}

/-- **What a run writes.** -/
theorem writes_tracedActions (hs : s.StateAlone) (h : Host) (actions : List Action) (c : ArmCore) :
    WritesText (tracedActions s h actions) c () (run h actions c)
      ((statesBehind h actions c).flatMap fun c => c.shown.text) := by
  induction actions generalizing c with
  | nil => exact .pure () c
  | cons a actions ih =>
      have hcall : WritesText (reading (a.call h)) c () (a.perform h c) [] := by
        rw [← a.call_state]
        exact .reading _ c
      cases a with
      | step u =>
          have hstate : WritesText (traceBehind s (.step u)) (armStep h u c).state ()
              (armStep h u c).state (armStep h u c).state.shown.text := by
            rw [traceBehind, traceArmState, if_pos hs.state]
            exact writes_armPrintState _
          exact hcall.nothingBind (hstate.bind (ih _))
      | irq exception =>
          have hstate : WritesText (traceBehind s (.irq exception)) (armException exception c).state
              () (armException exception c).state [] := .pure () _
          exact hcall.nothingBind (hstate.nothingBind (ih _))

/-- The trace of the state changes nothing. -/
theorem tracedActions_state (s : Tracer) (h : Host) (actions : List Action) (c : ArmCore) :
    (tracedActions s h actions c).state = run h actions c := by
  have hbehind (a : Action) (c : ArmCore) : (traceBehind s a c).state = c := by
    cases a with
    | step =>
        show (traceArmState s c).state = c
        unfold traceArmState
        split
        · exact (writes_armPrintState c).state
        · rfl
    | irq => rfl
  induction actions generalizing c with
  | nil => rfl
  | cons a actions ih =>
      show (tracedActions s h actions (traceBehind s a (a.call h c).state).state).state
        = run h actions (a.perform h c)
      rw [hbehind, a.call_state, ih]

theorem printedText_run (hs : s.StateAlone) (f : TraceFormat) (h : Host) (actions : List Action)
    (c : ArmCore) :
    printedText f (tracedActions s h actions c).events s
      = some (((statesBehind h actions c).map ArmCore.shown).flatMap Shown.text) := by
  rw [printedText_alone hs, (writes_tracedActions hs h actions c).text, List.flatMap_map]

end

/-! ## The law -/

/-- **The trace of the states.** With `--trace-state` alone, a run is printed without leaving a
table, tracing it changes nothing, and the texts of two runs are the same exactly if behind every
step the registers and the CPSR are. -/
theorem stateTrace_iff (f : TraceFormat) (s : Tracer) (hs : s.StateAlone) (h h' : Host)
    (actions actions' : List Action) (c c' : ArmCore) :
    (tracedActions s h actions c).state = run h actions c ∧
      (∃ printed, printedText f (tracedActions s h actions c).events s = some printed) ∧
      (printedText f (tracedActions s h actions c).events s
          = printedText f (tracedActions s h' actions' c').events s ↔
        (statesBehind h actions c).map ArmCore.shown
          = (statesBehind h' actions' c').map ArmCore.shown) := by
  have htext := printedText_run hs f h actions c
  refine ⟨tracedActions_state s h actions c, ⟨_, htext⟩, ?_⟩
  rw [htext, printedText_run hs f h' actions' c', Option.some.injEq]
  constructor
  · intro heq
    have hfull (h : Host) (actions : List Action) (c : ArmCore) :
        ∀ x ∈ (statesBehind h actions c).map ArmCore.shown, x.Full :=
      List.forall_mem_map.mpr fun c _ => shown_full c
    have hread := reads_state.flatMap (fun x _ => x.text_ne) (hfull h actions c)
      (hfull h' actions' c') heq
    rwa [List.map_id, List.map_id] at hread
  · intro heq
    rw [heq]

/-- Other locals at another time, an interrupt that is ignored, and another SPSR. -/
theorem stateTrace_iff_mov :
    let c : ArmCore := (movCore 7).setReg 17 0xffffffff
    let s : Tracer := ⟨0, true, fun _ => none, 4⟩
    let printed (actions : List Action) (c : ArmCore) :=
      printedText .plain (tracedActions s .masked actions c).events s
    printed [.step ⟨0, 0, 0, 0, 0, 0⟩] (movCore 0)
      = printed [.irq 6, .step ⟨7, 1, 5, 9, 0, 0⟩] c :=
  (stateTrace_iff .plain ⟨0, true, fun _ => none, 4⟩ ⟨by decide, by decide, by decide⟩ .masked
    .masked [.step ⟨0, 0, 0, 0, 0, 0⟩] [.irq 6, .step ⟨7, 1, 5, 9, 0, 0⟩] (movCore 0)
    ((movCore 7).setReg 17 0xffffffff)).2.2.mpr (by decide +kernel)

end Armator
