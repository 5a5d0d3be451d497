import Armator.Gdb.Protocol
import Armator.Semantics.Step
import Armator.Semantics.WordText

set_option autoImplicit false

/-! # What the command handlers do

One `_runs` lemma for each handler: the state it leaves, the reply it sends, the places of the
request it reads.
-/

namespace Armator

open Logged CString

variable (cfg : GdbConfig) (u : GdbLocals) (data : List Byte) (g : Gdb)

/-! ## Execution -/

def Gdb.withException (g : Gdb) (exception : Int) : Gdb := { g with targetException := exception }

/-- The state after a call of `arm_step` by a handler. -/
def Gdb.stepped (g : Gdb) (h : Host) (u : Locals) : Gdb :=
  (g.withArm (stepState h u g.arm)).withException 0

def stepEvents (h : Host) (u : Locals) (c : ArmCore) : List GdbEvent :=
  (fetchEvent u c :: stepAccesses h u c).map .arm

theorem liftArmStep_runs (h : Host) (u : Locals) (g : Gdb) :
    Runs shown (liftArm (armStep h u)) g (.ok 0) (g.withArm (stepState h u g.arm))
      (stepEvents h u g.arm) :=
  liftArm_runs g (armStep_runs h u g.arm)

theorem step_runs :
    Runs shown (step cfg u) g (.ok ())
      ((g.stepped cfg.host (u.steps 0)).replied (stopReason 0))
      (stepEvents cfg.host (u.steps 0) g.arm ++ replyEvents [stopReason 0]) :=
  (liftArmStep_runs cfg.host (u.steps 0) g).okBind
    ((modifyGdb_runs _ _).okQuietBind (gdbSendStopReason_runs (g.stepped cfg.host (u.steps 0))))

/-- The word `cont` looks at, with the content of `instruction` before. -/
def lookAhead (instruction : BitVec 32) (c : ArmCore) : BitVec 32 :=
  (memoryReadWord c.mem c.fetchAddress instruction).2

def lookEvent (instruction : BitVec 32) (c : ArmCore) : Event :=
  .memory c.cycleCount .read 4 .otherAccess c.fetchAddress (lookAhead instruction c)

def IsBreakpoint (w : BitVec 32) : Prop := w &&& 0xFFF000F0 = 0xE7F000F0

instance (w : BitVec 32) : Decidable (IsBreakpoint w) := inferInstanceAs (Decidable (_ = _))

variable {u} in
/-- The look-ahead is at the address of the next fetch, and does not touch the machine. -/
theorem contLoop_look {fuel k : Nat} {instruction : BitVec 32} {r : Except Fault Unit} {g' : Gdb}
    {es : List GdbEvent}
    (h : Runs shown (if IsBreakpoint (lookAhead instruction g.arm) then pure ()
      else do
        let result ← liftArm (armStep cfg.host (u.steps k))
        modifyGdb fun g => { g with targetException := result }
        contLoop cfg u fuel (k + 1) (lookAhead instruction g.arm) : GdbM Unit) g r g' es) :
    Runs shown (contLoop cfg u (fuel + 1) k instruction) g r g'
      (.arm (lookEvent instruction g.arm) :: es) := by
  have hread := liftArm_runs g (armReadRegister_runs 15 g.arm)
  have hword := liftArm_runs g (armReadWord_runs g.arm.fetchAddress instruction g.arm)
  exact (gdbEmit_quiet g rfl).okQuietBind <| hread.okQuietBind <|
    hword.okBind <| (gdbEmit_quiet g rfl).okQuietBind h

/-- One iteration at a breakpoint. -/
theorem contLoop_stop {fuel k : Nat} {instruction : BitVec 32}
    (hbreak : IsBreakpoint (lookAhead instruction g.arm)) :
    Runs shown (contLoop cfg u (fuel + 1) k instruction) g (.ok ()) g
      [.arm (lookEvent instruction g.arm)] := by
  refine contLoop_look cfg g ?_
  rw [if_pos hbreak]
  exact Runs.okPure _ _ g

variable {u} in
/-- One iteration elsewhere. -/
theorem contLoop_go {fuel k : Nat} {instruction : BitVec 32} {r : Except Fault Unit} {g' : Gdb}
    {es : List GdbEvent} (hbreak : ¬ IsBreakpoint (lookAhead instruction g.arm))
    (h : Runs shown (contLoop cfg u fuel (k + 1) (lookAhead instruction g.arm))
      (g.stepped cfg.host (u.steps k)) r g' es) :
    Runs shown (contLoop cfg u (fuel + 1) k instruction) g r g'
      (.arm (lookEvent instruction g.arm) :: (stepEvents cfg.host (u.steps k) g.arm ++ es)) := by
  refine contLoop_look cfg g ?_
  rw [if_neg hbreak]
  exact (liftArmStep_runs cfg.host (u.steps k) g).okBind ((modifyGdb_runs _ _).okQuietBind h)

/-- Whatever the loop does, it does to the machine. -/
theorem contLoop_frame (fuel k : Nat) (instruction : BitVec 32) :
    ∃ (r : Except Fault Unit) (c : ArmCore) (exception : Int) (es : List Event),
      Runs shown (contLoop cfg u fuel k instruction) g r
        ((g.withArm c).withException exception) (es.map .arm) ∧
      (r = .ok () ∨ r = .error .outOfFuel) := by
  induction fuel generalizing k instruction g with
  | zero =>
      exact ⟨.error .outOfFuel, g.arm, g.targetException, [], Runs.throw _ _ g, .inr rfl⟩
  | succ fuel ih =>
      by_cases hbreak : IsBreakpoint (lookAhead instruction g.arm)
      · exact ⟨.ok (), g.arm, g.targetException, [_], contLoop_stop cfg u g hbreak, .inl rfl⟩
      · obtain ⟨r, c, exception, es, hrun, hr⟩ :=
          ih (g.stepped cfg.host (u.steps k)) (k + 1) (lookAhead instruction g.arm)
        refine ⟨r, c, exception, lookEvent instruction g.arm :: (fetchEvent (u.steps k) g.arm ::
          stepAccesses cfg.host (u.steps k) g.arm ++ es), ?_, hr⟩
        have hgo := contLoop_go cfg g hbreak hrun
        rw [stepEvents, ← List.map_append] at hgo
        exact hgo

theorem cont_runs :
    ∃ (r : Except Fault Unit) (c : ArmCore) (exception : Int) (es : List Event),
      Runs shown (contLoop cfg u u.fuel 0 u.instruction) g r
        ((g.withArm c).withException exception) (es.map .arm) ∧
      (r = .ok () ∧ Runs shown (cont cfg u) g (.ok ())
          (((g.withArm c).withException exception).replied (stopReason exception))
          (es.map .arm ++ replyEvents [stopReason exception]) ∨
        r = .error .outOfFuel ∧ Runs shown (cont cfg u) g (.error .outOfFuel)
          ((g.withArm c).withException exception) (es.map .arm)) := by
  obtain ⟨r, c, exception, es, hrun, hr⟩ := contLoop_frame cfg u g u.fuel 0 u.instruction
  refine ⟨r, c, exception, es, hrun, ?_⟩
  rcases hr with rfl | rfl
  · exact .inl ⟨rfl, hrun.okBind (gdbSendStopReason_runs _)⟩
  · exact .inr ⟨rfl, hrun.faultBind⟩

/-! ## Queries -/

def queryAnswer (s : List Byte) : List Byte :=
  if s = text ['O', 'f', 'f', 's', 'e', 't', 's'] then
    text ['T', 'e', 'x', 't', '=', '0', ';', 'D', 'a', 't', 'a', '=', '0', ';',
      'B', 's', 's', '=', '0']
  else if s.take 9 = text ['S', 'u', 'p', 'p', 'o', 'r', 't', 'e', 'd'] then
    text ['P', 'a', 'c', 'k', 'e', 't', 'S', 'i', 'z', 'e', '=', '4', '0', '0']
  else if s = text ['T', 'S', 't', 'a', 't', 'u', 's'] then
    text ['T', '0', ';', 't', 'n', 'o', 't', 'r', 'u', 'n', ':', '0']
  else []

theorem query_runs :
    Runs shown (query data) g (.ok ()) (g.replied (queryAnswer (cstring data)))
      (.load 0 :: replyEvents [queryAnswer (cstring data)]) := by
  refine (loadString_runs g data 0).okBind ?_
  rw [List.drop_zero]
  unfold queryAnswer
  split
  · exact gdbSendData_runs g (nul_text rfl)
  · split
    · exact gdbSendData_runs g (nul_text rfl)
    · split
      · exact gdbSendData_runs g (nul_text rfl)
      · exact Runs.ite (fun _ => gdbSendData_runs g (by simp)) fun _ => gdbSendData_runs g (by simp)

/-- The command selects any or all threads. -/
def SelectsThread (data : List Byte) : Prop :=
  (data.getD 0 0 = chr 'c' ∨ data.getD 0 0 = chr 'g') ∧
    (atoi (cstring (data.drop 1))).toInt < 1 ∧ (atoi (cstring (data.drop 1))).toInt > -2

instance : Decidable (SelectsThread data) := inferInstanceAs (Decidable (_ ∧ _))

def threadAnswer (data : List Byte) : List Byte :=
  if SelectsThread data then text ['O', 'K'] else text ['E', '0', '1']

theorem setThread_runs :
    Runs shown (setThread data) g (.ok ()) (g.replied (threadAnswer data))
      (.load 0 :: .load 1 :: replyEvents [threadAnswer data]) := by
  refine (loadChar_runs g data 0).okBind ((loadString_runs g data 1).okBind ?_)
  show Runs shown (if SelectsThread data then _ else _) _ _ _ _
  unfold threadAnswer
  split
  · exact gdbSendData_runs g (nul_text rfl)
  · exact gdbSendData_runs g (nul_text rfl)

/-! ## Register dumps -/

/-- The texts of the registers in `rs`. -/
def registerTexts (c : ArmCore) (rs : List Nat) : List (List Byte) :=
  rs.flatMap fun i => wordTexts cfg (c.regValue i)

/-- The texts of the reply to `g`. -/
def generalTexts (c : ArmCore) : List (List Byte) :=
  registerTexts cfg c (List.range 15) ++ (wordTexts cfg (c.regValue 15 - 4) ++
    (List.replicate (8 * 3 + 1) xxxxxxxx ++ wordTexts cfg c.cpsr))

theorem liftReadRegister_runs (i : Nat) :
    Runs shown (liftArm (armReadRegister i)) g (.ok (g.arm.regValue i)) g [] :=
  liftArm_runs g (armReadRegister_runs i g.arm)

theorem writeRegisters_runs (rs : List Nat) (o : Nat) :
    Runs shown (writeRegisters cfg rs o) g (.ok ()) (g.pasted o (registerTexts cfg g.arm rs))
      (textStores o (registerTexts cfg g.arm rs)) := by
  induction rs generalizing g o with
  | nil => exact Runs.okPure _ _ g
  | cons i rs ih =>
      have hcons : registerTexts cfg g.arm (i :: rs)
          = wordTexts cfg (g.arm.regValue i) ++ registerTexts cfg g.arm rs := List.flatMap_cons
      rw [hcons, Gdb.pasted_append, textStores_append, wordTexts_flatten, wordText_length]
      exact (liftReadRegister_runs g i).okQuietBind
        ((writeUint32_runs cfg g o _).okBind (ih _ _))

theorem writeUnavailable_runs (n o : Nat) :
    Runs shown (writeUnavailable n o) g (.ok ()) (g.pasted o (List.replicate n xxxxxxxx))
      (textStores o (List.replicate n xxxxxxxx)) := by
  induction n generalizing g o with
  | zero => exact Runs.okPure _ _ g
  | succ n ih => exact (storeText_runs g o xxxxxxxx).okBind (ih _ _)

theorem unavailable_flatten (n : Nat) :
    (List.replicate n xxxxxxxx).flatten = List.replicate (n * 8) (chr 'x') :=
  List.flatten_replicate_replicate

/-- The length of slots of 8 characters. -/
theorem slots_length {texts : Nat → List Byte} {rs : List Nat}
    (htexts : ∀ i ∈ rs, (texts i).length = 8) : (rs.flatMap texts).length = 8 * rs.length := by
  induction rs with
  | nil => rfl
  | cons i rs ih =>
      obtain ⟨hi, hrs⟩ := List.forall_mem_cons.mp htexts
      rw [List.flatMap_cons, List.length_append, ih hrs, hi, List.length_cons]
      ring

theorem registerTexts_flatten (c : ArmCore) (rs : List Nat) :
    (registerTexts cfg c rs).flatten = rs.flatMap fun i => wordText cfg (c.regValue i) := by
  induction rs with
  | nil => rfl
  | cons i rs ih =>
      have hcons : registerTexts cfg c (i :: rs)
          = wordTexts cfg (c.regValue i) ++ registerTexts cfg c rs := List.flatMap_cons
      rw [hcons, List.flatten_append, ih, wordTexts_flatten, List.flatMap_cons]

theorem registerTexts_flatten_length (c : ArmCore) (rs : List Nat) :
    (registerTexts cfg c rs).flatten.length = 8 * rs.length := by
  rw [registerTexts_flatten, slots_length fun i _ => wordText_length cfg _]

/-- The payload of the reply to `g`: r0 to r14, the pc without its bias, the float registers
and fps, the CPSR. -/
def generalText (c : ArmCore) : List Byte :=
  (List.range 15).flatMap (fun i => wordText cfg (c.regValue i)) ++
    (wordText cfg (c.regValue 15 - 4) ++
      (List.replicate ((8 * 3 + 1) * 8) (chr 'x') ++ wordText cfg c.cpsr))

theorem generalTexts_flatten (c : ArmCore) :
    (generalTexts cfg c).flatten = generalText cfg c := by
  rw [generalTexts, List.flatten_append, List.flatten_append, List.flatten_append,
    registerTexts_flatten, unavailable_flatten, wordTexts_flatten, wordTexts_flatten, generalText]

theorem isHex_nul {ds : List Byte} (h : IsHex ds) : ∀ b ∈ ds, b ≠ 0 := fun b hb =>
  (noDelimiter_of_isHexDigit (h b hb)).nul

theorem generalText_mem (c : ArmCore) :
    ∀ b ∈ generalText cfg c, isHexDigit b = true ∨ b = chr 'x' := by
  intro b hb
  have hword (v : BitVec 32) : ∀ b ∈ wordText cfg v, isHexDigit b = true := isHex_wordText cfg v
  rcases List.mem_append.mp hb with hregs | hb
  · obtain ⟨i, -, hi⟩ := List.mem_flatMap.mp hregs
    exact .inl (hword _ b hi)
  · rcases List.mem_append.mp hb with hpc | hb
    · exact .inl (hword _ b hpc)
    · rcases List.mem_append.mp hb with hx | hcpsr
      · exact .inr (List.eq_of_mem_replicate hx)
      · exact .inl (hword _ b hcpsr)

theorem generalText_nul (c : ArmCore) : ∀ b ∈ generalText cfg c, b ≠ 0 := by
  intro b hb
  rcases generalText_mem cfg c b hb with hhex | rfl
  · exact (noDelimiter_of_isHexDigit hhex).nul
  · decide

theorem readGeneralRegisters_runs :
    Runs shown (readGeneralRegisters cfg) g (.ok ()) (g.replied (generalText cfg g.arm))
      (replyEvents (generalTexts cfg g.arm)) := by
  have hne : generalTexts cfg g.arm ≠ [] := by
    intro hnil
    have hflat := congrArg (fun ts => ts.flatten.length) hnil
    simp [generalTexts, wordTexts_flatten, wordText_length] at hflat
  have hreply := reply_runs g hne (by rw [generalTexts_flatten]; exact generalText_nul cfg g.arm)
  rw [generalTexts_flatten] at hreply
  have hcpsr (g : Gdb) : Runs shown (liftArm armReadCpsr) g (.ok g.arm.cpsr) g [] :=
    liftArm_runs g (armReadCpsr_runs g.arm)
  rw [replyEvents, generalTexts_flatten]
  unfold generalTexts at hreply ⊢
  rw [Gdb.pasted_append, Gdb.pasted_append, Gdb.pasted_append] at hreply
  rw [textStores_append, textStores_append, textStores_append, List.append_assoc,
    List.append_assoc, List.append_assoc]
  rw [registerTexts_flatten_length, wordTexts_flatten, wordText_length, unavailable_flatten,
    List.length_replicate, List.length_range, Nat.mul_comm (8 * 3 + 1)] at hreply ⊢
  refine (gdbEmit_quiet g rfl).okQuietBind ((getGdb_runs g).okQuietBind ?_)
  rw [g.buffer_eq]
  exact (writeRegisters_runs cfg g (List.range 15) 1).okBind <|
    (liftReadRegister_runs _ 15).okQuietBind <| (writeUint32_runs cfg _ _ _).okBind <|
    (writeUnavailable_runs _ _ _).okBind <| (hcpsr _).okQuietBind <|
    (writeUint32_runs cfg _ _ _).okBind <| (gdbEmit_quiet _ rfl).okQuietBind hreply

/-! ## Single registers -/

/-- What `p` prints of a register. -/
def printedReg (c : ArmCore) (reg : BitVec 32) : BitVec 32 :=
  c.regValue reg.toNat - if reg = 15 then 4 else 0

theorem readRegisterHandler_runs (hreg : atoi (cstring data) < 16) :
    Runs shown (readRegisterHandler cfg data) g (.ok ())
      (g.replied (wordText cfg (printedReg g.arm (atoi (cstring data)))))
      (.load 0 :: replyEvents (wordTexts cfg (printedReg g.arm (atoi (cstring data))))) := by
  have hreply := reply_runs g (wordTexts_ne_nil cfg (printedReg g.arm (atoi (cstring data))))
    (by rw [wordTexts_flatten]; exact isHex_nul (isHex_wordText cfg _))
  rw [wordTexts_flatten] at hreply
  rw [replyEvents, wordTexts_flatten]
  refine (loadString_runs g data 0).okBind ?_
  rw [List.drop_zero, if_pos hreg]
  refine (gdbEmit_quiet g rfl).okQuietBind ((getGdb_runs g).okQuietBind ?_)
  rw [g.buffer_eq]
  exact (liftReadRegister_runs g _).okQuietBind <| (writeUint32_runs cfg g 1 _).okBind <|
    (gdbEmit_quiet _ rfl).okQuietBind hreply

theorem readRegisterHandler_fault (hreg : ¬ atoi (cstring data) < 16) :
    Runs shown (readRegisterHandler cfg data) g (.error .assertion) g [.load 0] := by
  refine (loadString_runs g data 0).okBindQuiet ?_
  rw [List.drop_zero, if_neg hreg]
  exact Runs.throw _ _ g

/-- The register number `P` uses. -/
def givenReg (u : GdbLocals) (data : List Byte) : BitVec 32 :=
  match scanNumber (cstring data) with
  | some (v, _) => v
  | none => u.reg

def givenEvents (data : List Byte) : List GdbEvent :=
  .load 0 :: if (scanNumber (cstring data)).isSome then [] else [.unassigned]

theorem scanRegister_runs :
    Runs shown (scanRegister u data) g (.ok (givenReg u data)) g (givenEvents data) := by
  refine (loadString_runs g data 0).okBind ?_
  rw [List.drop_zero]
  unfold givenReg
  cases hscan : scanNumber (cstring data) with
  | none => exact (gdbEmit_runs g rfl).okBindQuiet (Runs.okPure _ _ g)
  | some v => exact Runs.okPure _ _ g

/-- The position behind the first `c`. -/
def afterChar (data : List Byte) (c : Byte) : Option Nat := (index data c).map (· + 1)

def afterEvents (data : List Byte) (c : Byte) : List GdbEvent :=
  if (afterChar data c).isSome then [] else [.absent]

theorem pointAfter_runs (c : Byte) :
    Runs shown (pointAfter data c) g (.ok (afterChar data c)) g (afterEvents data c) := by
  unfold pointAfter afterEvents afterChar
  cases hindex : index data c with
  | none => exact (gdbEmit_runs g rfl).okBindQuiet (Runs.okPure _ _ g)
  | some k => exact Runs.okPure _ _ g

theorem writeRegisterHandler_absent (habsent : afterChar data (chr '=') = none) :
    Runs shown (writeRegisterHandler cfg u data) g (.error .invalidPointer) g
      (givenEvents data ++ afterEvents data (chr '=')) := by
  refine (scanRegister_runs u data g).okBind ((pointAfter_runs data g (chr '=')).okBindQuiet ?_)
  rw [habsent]
  exact Runs.throw _ _ g

variable {o : Nat}

theorem writeRegisterHandler_runs (hafter : afterChar data (chr '=') = some o)
    (hreg : givenReg u data < 16) :
    Runs shown (writeRegisterHandler cfg u data) g (.ok ())
      ((g.withArm (g.arm.setReg (givenReg u data).toNat
        (readWord cfg u.value data o))).replied (text ['O', 'K']))
      (givenEvents data ++ (afterEvents data (chr '=') ++
        (scansEvents data 4 o ++ replyEvents [text ['O', 'K']]))) := by
  refine (scanRegister_runs u data g).okBind ((pointAfter_runs data g (chr '=')).okBind ?_)
  rw [hafter]
  refine (readUint32_runs cfg g u.value data o).okBind ?_
  rw [if_pos hreg]
  exact (gdbEmit_quiet g rfl).okQuietBind <|
    (liftArm_runs g (armWriteRegister_runs _ _ g.arm)).okQuietBind <|
    (gdbEmit_quiet _ rfl).okQuietBind (gdbSendData_runs _ (nul_text rfl))

theorem writeRegisterHandler_fault (hafter : afterChar data (chr '=') = some o)
    (hreg : ¬ givenReg u data < 16) :
    Runs shown (writeRegisterHandler cfg u data) g (.error .assertion) g
      (givenEvents data ++ (afterEvents data (chr '=') ++ scansEvents data 4 o)) := by
  refine (scanRegister_runs u data g).okBind ((pointAfter_runs data g (chr '=')).okBind ?_)
  rw [hafter]
  refine (readUint32_runs cfg g u.value data o).okBindQuiet ?_
  rw [if_neg hreg]
  exact Runs.throw _ _ g

/-! ## Register restores -/

/-- The processor after words of the request are written to the registers in `rs`. -/
def ArmCore.restored (cfg : GdbConfig) (u : GdbLocals) (data : List Byte) :
    List Nat → Nat → ArmCore → ArmCore
  | [], _, c => c
  | i :: is, o, c => ArmCore.restored cfg u data is (o + 8) (c.setReg i (readWord cfg u.value data o))

/-- The processor after `G`. -/
def ArmCore.generalRestored (cfg : GdbConfig) (u : GdbLocals) (data : List Byte) (c : ArmCore) :
    ArmCore :=
  (c.restored cfg u data (List.range 16) 0).setReg 16 (readWord cfg u.value data (8 * 41))

theorem scansEvents_add (n m o : Nat) :
    scansEvents data (n + m) o = scansEvents data n o ++ scansEvents data m (o + 2 * n) := by
  induction n generalizing o with
  | zero => rw [Nat.zero_add]; rfl
  | succ n ih =>
      have hnext : o + 2 + 2 * n = o + 2 * (n + 1) := by omega
      rw [Nat.add_right_comm, scansEvents, ih, scansEvents, List.append_assoc, hnext]

theorem readRegisters_runs (rs : List Nat) (o : Nat) :
    Runs shown (readRegisters cfg u data rs o) g (.ok ())
      (g.withArm (g.arm.restored cfg u data rs o)) (scansEvents data (4 * rs.length) o) := by
  induction rs generalizing g o with
  | nil => exact Runs.okPure _ _ g
  | cons i rs ih =>
      rw [List.length_cons, Nat.mul_succ, Nat.add_comm, scansEvents_add]
      exact (readUint32_runs cfg g u.value data o).okBind
        ((liftArm_runs g (armWriteRegister_runs _ _ g.arm)).okQuietBind (ih _ _))

theorem readUnavailable_runs (n o : Nat) :
    Runs shown (readUnavailable cfg u data n o) g (.ok ()) g (scansEvents data (4 * n) o) := by
  induction n generalizing o with
  | zero => exact Runs.okPure _ _ g
  | succ n ih =>
      have hcount : 4 * (n + 1) = 4 + 4 * n := by omega
      rw [hcount, scansEvents_add]
      exact (readUint32_runs cfg g u.value data o).okBind (ih _)

theorem writeGeneralRegisters_runs :
    Runs shown (writeGeneralRegisters cfg u data) g (.ok ())
      ((g.withArm (g.arm.generalRestored cfg u data)).replied (text ['O', 'K']))
      (scansEvents data 168 0 ++ replyEvents [text ['O', 'K']]) := by
  have hsplit : scansEvents data 168 0 = scansEvents data (4 * 16) 0 ++
      (scansEvents data (4 * (8 * 3 + 1)) (0 + 8 * 16) ++
        scansEvents data 4 (0 + 8 * 16 + 8 * (8 * 3 + 1))) := by
    rw [show 168 = 4 * 16 + (4 * (8 * 3 + 1) + 4) from rfl, scansEvents_add, scansEvents_add]
  have hcpsr : 8 * 41 = 0 + 8 * 16 + 8 * (8 * 3 + 1) := rfl
  rw [hsplit, List.append_assoc, List.append_assoc, ArmCore.generalRestored, hcpsr]
  have hregs := readRegisters_runs cfg u data g (List.range 16) 0
  rw [List.length_range] at hregs
  generalize g.arm.restored cfg u data (List.range 16) 0 = c at hregs ⊢
  exact (gdbEmit_quiet g rfl).okQuietBind <| hregs.okBind <|
    (readUnavailable_runs cfg u data _ (8 * 3 + 1) (0 + 8 * 16)).okBind <|
    (readUint32_runs cfg _ u.value data (0 + 8 * 16 + 8 * (8 * 3 + 1))).okBind <|
    (liftArm_runs _ (armWriteCpsr_runs _ _)).okQuietBind <|
    (gdbEmit_quiet _ rfl).okQuietBind (gdbSendData_runs _ (nul_text rfl))

/-- What a word of the request is written to. -/
theorem ArmCore.restored_reg (c : ArmCore) (s n o r : Nat) :
    (c.restored cfg u data (List.range' s n) o).reg.rData r
      = if s ≤ r ∧ r < s + n then readWord cfg u.value data (o + 8 * (r - s))
        else c.reg.rData r := by
  induction n generalizing s o c with
  | zero => rw [if_neg (by omega)]; rfl
  | succ n ih =>
      have hcons : List.range' s (n + 1) = s :: List.range' (s + 1) n := rfl
      rw [hcons, ArmCore.restored, ih]
      by_cases hlater : s + 1 ≤ r ∧ r < s + 1 + n
      · have hoffset : o + 8 + 8 * (r - (s + 1)) = o + 8 * (r - s) := by omega
        rw [if_pos hlater, if_pos (by omega), hoffset]
      · rw [if_neg hlater]
        by_cases hhere : r = s
        · subst hhere
          rw [if_pos (by omega), ArmCore.setReg_same, Nat.sub_self]
          rfl
        · rw [if_neg (by omega), ArmCore.setReg_of_ne _ hhere]

theorem ArmCore.restored_mem (c : ArmCore) (rs : List Nat) (o : Nat) :
    (c.restored cfg u data rs o).mem = c.mem := by
  induction rs generalizing o c with
  | nil => rfl
  | cons i rs ih => exact ih _ _

theorem ArmCore.restored_cycleCount (c : ArmCore) (rs : List Nat) (o : Nat) :
    (c.restored cfg u data rs o).cycleCount = c.cycleCount := by
  induction rs generalizing o c with
  | nil => rfl
  | cons i rs ih => exact ih _ _

/-! ## Memory dumps -/

/-- What `read_memory` and `write_memory_binary` use for `address` and `size`. -/
def givenRange (u : GdbLocals) (data : List Byte) : BitVec 32 × BitVec 32 :=
  ((scanPair (cstring data)).1.getD u.address, (scanPair (cstring data)).2.getD u.size)

/-- Both numbers were scanned. -/
def RangeScanned (data : List Byte) : Prop :=
  (scanPair (cstring data)).1.isSome ∧ (scanPair (cstring data)).2.isSome

instance : Decidable (RangeScanned data) := inferInstanceAs (Decidable (_ ∧ _))

def rangeEvents (data : List Byte) : List GdbEvent :=
  [.load 0] ++ if RangeScanned data then [] else [.unassigned]

theorem scanRange_runs :
    Runs shown (scanRange u data) g (.ok (givenRange u data)) g (rangeEvents data) := by
  unfold givenRange rangeEvents
  refine (loadString_runs g data 0).okBind ?_
  rw [List.drop_zero]
  have hfail := gdbEmit_runs g (e := .unassigned) rfl
  rcases hscan : scanPair (cstring data) with ⟨_ | address, _ | size⟩
  · rw [if_neg (by simp [RangeScanned, hscan])]
    exact hfail.okBindQuiet (Runs.okPure _ _ g)
  · rw [if_neg (by simp [RangeScanned, hscan])]
    exact hfail.okBindQuiet (Runs.okPure _ _ g)
  · rw [if_neg (by simp [RangeScanned, hscan])]
    exact hfail.okBindQuiet (Runs.okPure _ _ g)
  · rw [if_pos (by simp [RangeScanned, hscan])]
    exact Runs.okPure _ _ g

/-- The bytes `read_memory` prints: up to `n`, as long as the reads succeed. -/
def Memory.dumped (mem : Memory) : Nat → BitVec 32 → List (BitVec 8)
  | 0, _ => []
  | n + 1, address =>
    if address.toNat ≤ mem.size then mem.get address :: mem.dumped n (address + 1) else []

theorem readMemoryLoop_runs (n : Nat) (address : BitVec 32) (value : BitVec 8) (o : Nat) :
    Runs shown (readMemoryLoop n address value o) g (.ok ())
      (g.pasted o ((g.mem.dumped n address).map hex2))
      (textStores o ((g.mem.dumped n address).map hex2)) := by
  induction n generalizing g address value o with
  | zero => exact Runs.okPure _ _ g
  | succ n ih =>
      refine (getGdb_runs g).okQuietBind ?_
      rw [Memory.dumped]
      by_cases hread : address.toNat ≤ g.mem.size
      · have hresult : memoryReadByte g.mem address value
            = (((g.mem.get address).toNat : Int), g.mem.get address) := if_pos hread
        rw [hresult, if_pos hread]
        -- a byte is never the failure value
        have hstatus : (((g.mem.get address).toNat : Int), g.mem.get address).1 ≠ -1 := by
          show ((g.mem.get address).toNat : Int) ≠ -1
          omega
        dsimp only
        rw [if_pos hstatus]
        exact (storeText_runs g o _).okBind (ih _ _ _ _)
      · have hresult : memoryReadByte g.mem address value = (-1, value) := if_neg hread
        rw [hresult, if_neg hread]
        exact Runs.okPure _ _ g

/-- The payload of the reply to `m`. -/
def dumpText (u : GdbLocals) (data : List Byte) (mem : Memory) : List Byte :=
  hexText (mem.dumped (givenRange u data).2.toNat (givenRange u data).1)

def dumpTexts (u : GdbLocals) (data : List Byte) (mem : Memory) : List (List Byte) :=
  [] :: (mem.dumped (givenRange u data).2.toNat (givenRange u data).1).map hex2

theorem dumpTexts_flatten (mem : Memory) :
    (dumpTexts u data mem).flatten = dumpText u data mem := by
  rw [dumpTexts, dumpText, hexText, List.flatten_cons, List.nil_append, List.flatMap_def]

theorem readMemory_runs :
    Runs shown (readMemory u data) g (.ok ()) (g.replied (dumpText u data g.mem))
      (rangeEvents data ++ replyEvents (dumpTexts u data g.mem)) := by
  have hne : dumpTexts u data g.mem ≠ [] := List.cons_ne_nil _ _
  have hreply := reply_runs g hne (by rw [dumpTexts_flatten]; exact isHex_nul (isHex_hexText _))
  have hnul : Runs shown (storeChar 1 0) g (.ok ()) (g.pasted 1 [[]]) (textStores 1 [[]]) :=
    storeChar_runs g 1 0
  have hloop := readMemoryLoop_runs (g.pasted 1 [[]]) (givenRange u data).2.toNat
    (givenRange u data).1 u.byte 1
  have hstate : g.pasted 1 (dumpTexts u data g.mem) = (g.pasted 1 [[]]).pasted 1
      (((g.pasted 1 [[]]).mem.dumped (givenRange u data).2.toNat (givenRange u data).1).map hex2) :=
    g.pasted_append 1 [[]] _
  have hevents : textStores 1 (dumpTexts u data g.mem) = textStores 1 [[]] ++
      textStores 1 (((g.pasted 1 [[]]).mem.dumped (givenRange u data).2.toNat
        (givenRange u data).1).map hex2) :=
    textStores_append 1 [[]] _
  rw [dumpTexts_flatten, hstate] at hreply
  rw [replyEvents, dumpTexts_flatten, hevents, List.append_assoc]
  refine (scanRange_runs u data g).okBind ((getGdb_runs g).okQuietBind ?_)
  rw [g.buffer_eq]
  exact hnul.okBind (hloop.okBind hreply)

/-! ## Memory writes -/

/-- The value at `content`, and where the next one begins. -/
def contentAt (data : List Byte) (o : Nat) : Byte × Nat :=
  if data.getD o 0 = 0x7d then (data.getD (o + 1) 0 ^^^ 0x20, o + 2) else (data.getD o 0, o + 1)

/-- The first `n` values from `o` on. -/
def contents (data : List Byte) : Nat → Nat → List Byte
  | 0, _ => []
  | n + 1, o => (contentAt data o).1 :: contents data n (contentAt data o).2

def contentLoads (data : List Byte) (o : Nat) : List GdbEvent :=
  [.load o] ++ if data.getD o 0 = 0x7d then [.load (o + 1)] else []

def contentEvents (data : List Byte) : Nat → Nat → List GdbEvent
  | 0, _ => []
  | n + 1, o => contentLoads data o ++ contentEvents data n (contentAt data o).2

/-- The memory after bytes are written from `address` on. -/
def Memory.stored (mem : Memory) (address : BitVec 32) : List Byte → Memory
  | [] => mem
  | b :: bs => Memory.stored (memoryWriteByte mem address b).2 (address + 1) bs

def Gdb.withMem (g : Gdb) (mem : Memory) : Gdb := g.withArm { g.arm with mem := mem }

theorem unescape_runs (o : Nat) :
    Runs shown (unescape data (some o)) g (.ok ((contentAt data o).1, some (contentAt data o).2)) g
      (contentLoads data o) := by
  unfold contentAt contentLoads
  refine (loadChar_runs g data o).okBind ?_
  by_cases hescape : data.getD o 0 = 0x7d
  · simp only [if_pos hescape]
    exact (loadChar_runs g data (o + 1)).okBindQuiet (Runs.okPure _ _ g)
  · simp only [if_neg hescape]
    exact Runs.okPure _ _ g

/-- The loop writes everything: no write fails. -/
theorem writeMemoryLoop_runs (n : Nat) (address : BitVec 32) (o : Nat) :
    Runs shown (writeMemoryLoop data n address (some o) true) g (.ok true)
      (g.withMem (g.mem.stored address (contents data n o))) (contentEvents data n o) := by
  induction n generalizing g address o with
  | zero => exact Runs.okPure _ _ g
  | succ n ih =>
      rw [writeMemoryLoop, if_pos rfl, contentEvents, contents]
      exact (unescape_runs data g o).okBind <| (getGdb_runs g).okQuietBind <|
        (modifyGdb_runs g _).okQuietBind <|
        ih (g.withMem (memoryWriteByte g.mem address (contentAt data o).1).2) _ _

theorem writeMemoryLoop_refused (n : Nat) (address : BitVec 32) (content : Option Nat) :
    Runs shown (writeMemoryLoop data n address content false) g (.ok false) g [] := by
  cases n <;> exact Runs.okPure _ _ g

/-- Without a ':' the first step follows an invalid pointer. -/
theorem writeMemoryLoop_absent (n : Nat) (address : BitVec 32) :
    Runs shown (writeMemoryLoop data (n + 1) address none true) g (.error .invalidPointer) g [] :=
  Runs.faultBind (Runs.faultBind (Runs.throw _ _ g))

/-- What is scanned, in front of the loop and the reply. -/
theorem writeMemoryBinary_behind {v : Except Fault Unit} {g' : Gdb} {es : List GdbEvent}
    (hloop : Runs shown (do
      let writeOk ← writeMemoryLoop data (givenRange u data).2.toNat (givenRange u data).1
        (afterChar data (chr ':')) (decide ((givenRange u data).1.toNat < g.mem.size))
      if writeOk then gdbSendData (text ['O', 'K'])
      else gdbSendData (text ['E', '0', '2']) : GdbM Unit) g v g' es) :
    Runs shown (writeMemoryBinary u data) g v g'
      (rangeEvents data ++ (afterEvents data (chr ':') ++ es)) :=
  (scanRange_runs u data g).okBind ((pointAfter_runs data g (chr ':')).okBind
    ((getGdb_runs g).okQuietBind hloop))

theorem writeMemoryBinary_refused (haddress : ¬ (givenRange u data).1.toNat < g.mem.size) :
    Runs shown (writeMemoryBinary u data) g (.ok ()) (g.replied (text ['E', '0', '2']))
      (rangeEvents data ++ (afterEvents data (chr ':') ++ replyEvents [text ['E', '0', '2']])) := by
  refine writeMemoryBinary_behind u data g ?_
  rw [decide_eq_false haddress]
  exact (writeMemoryLoop_refused data g _ _ _).okQuietBind (gdbSendData_runs g (nul_text rfl))

theorem writeMemoryBinary_runs (haddress : (givenRange u data).1.toNat < g.mem.size)
    (hafter : afterChar data (chr ':') = some o) :
    Runs shown (writeMemoryBinary u data) g (.ok ())
      ((g.withMem (g.mem.stored (givenRange u data).1
        (contents data (givenRange u data).2.toNat o))).replied (text ['O', 'K']))
      (rangeEvents data ++ (afterEvents data (chr ':') ++
        (contentEvents data (givenRange u data).2.toNat o ++ replyEvents [text ['O', 'K']]))) := by
  refine writeMemoryBinary_behind u data g ?_
  rw [decide_eq_true haddress, hafter]
  exact (writeMemoryLoop_runs data g _ _ _).okBind (gdbSendData_runs _ (nul_text rfl))

/-- Without a ':' a request for no byte is accepted, any other stops the program. -/
theorem writeMemoryBinary_absent (haddress : (givenRange u data).1.toNat < g.mem.size)
    (hafter : afterChar data (chr ':') = none) :
    ((givenRange u data).2.toNat = 0 ∧
      Runs shown (writeMemoryBinary u data) g (.ok ()) (g.replied (text ['O', 'K']))
        (rangeEvents data ++ (afterEvents data (chr ':') ++ replyEvents [text ['O', 'K']]))) ∨
    Runs shown (writeMemoryBinary u data) g (.error .invalidPointer) g
      (rangeEvents data ++ afterEvents data (chr ':')) := by
  cases hsize : (givenRange u data).2.toNat with
  | zero =>
      refine .inl ⟨rfl, writeMemoryBinary_behind u data g ?_⟩
      rw [decide_eq_true haddress, hafter, hsize]
      exact (Runs.okPure _ _ g).okQuietBind (gdbSendData_runs g (nul_text rfl))
  | succ n =>
      have hrun : Runs shown (writeMemoryBinary u data) g (.error .invalidPointer) g
          (rangeEvents data ++ (afterEvents data (chr ':') ++ [])) := by
        refine writeMemoryBinary_behind u data g ?_
        rw [decide_eq_true haddress, hafter, hsize]
        exact (writeMemoryLoop_absent data g n _).faultBind
      rw [List.append_nil] at hrun
      exact .inr hrun

end Armator
