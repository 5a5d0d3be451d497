import Armator.Gdb.Locations
import Armator.Semantics.Command
import Armator.Semantics.Handlers

set_option autoImplicit false

/-! # The listed accesses are the accesses

What `trace.c` is told of the accesses (`Mark`) tells which function made them. The accesses that
are listed for a call are those that the call makes, in order (`simRun_marks`).
-/

namespace Armator

open Logged CString

/-! ## Marks -/

/-- What is told of an access, but for the values, and the switches of the trace. -/
inductive Mark
  | register (type : Access) (reg : Nat)
  | memory (type : Access) (size : Nat) (cause : Cause)
  | disable
  | enable
deriving DecidableEq

def Event.mark? : Event → Option Mark
  | .register _ type reg _ _ => some (.register type reg)
  | .memory _ type size cause _ _ => some (.memory type size cause)
  | .exception _ => none

def GdbEvent.mark? : GdbEvent → Option Mark
  | .arm e => e.mark?
  | .traceDisable => some .disable
  | .traceEnable => some .enable
  | _ => none

/-- What the function of a macro tells. -/
def TracedAccess.marks : TracedAccess → List Mark
  | .fetch => [.register .read 15, .memory .read 4 .opcodeFetch, .register .write 15]
  | .readRegister reg => [.register .read reg]
  | .readUsrRegister reg => [.register .read reg]
  | .readCpsr => [.register .read CPSR]
  | .readSpsr => [.register .read SPSR]
  | .writeRegister reg => [.register .write reg]
  | .writeUsrRegister reg => [.register .write reg]
  | .writeCpsr => [.register .write CPSR]
  | .writeSpsr => [.register .write SPSR]
  | .readByte => [.memory .read 1 .otherAccess]
  | .readHalf => [.memory .read 2 .otherAccess]
  | .readWord => [.memory .read 4 .otherAccess]
  | .writeByte => [.memory .write 1 .otherAccess]
  | .writeHalf => [.memory .write 2 .otherAccess]
  | .writeWord => [.memory .write 4 .otherAccess]

/-- Arguments are evaluated before the function is called. -/
def TracedText.marks : TracedText → List Mark
  | .done => []
  | .access a arguments rest => arguments.marks ++ a.marks ++ rest.marks

def LocationCall.marks : LocationCall → List Mark
  | .access a => a.marks
  | _ => []

def TraceCall.marks : TraceCall → List Mark
  | .location c => c.marks
  | .disable => [.disable]
  | .enable => [.enable]

def Phase.marks : Phase → List Mark
  | .accesses t => t.marks
  | .disable => [.disable]
  | .enable => [.enable]

@[simp] theorem TracedText.marks_append (t t' : TracedText) :
    (t ++ t').marks = t.marks ++ t'.marks := by
  induction t with
  | done => rfl
  | access a arguments rest ihArguments ihRest =>
      show arguments.marks ++ a.marks ++ (rest ++ t').marks = _
      rw [ihRest, ← List.append_assoc]
      rfl

@[simp] theorem traced_marks (a : TracedAccess) : (traced a).marks = a.marks :=
  List.append_nil _

/-- An order of evaluation moves no access. -/
theorem TracedText.Order.marks {t : TracedText} {w : List LocationCall} (h : t.Order w) :
    w.flatMap LocationCall.marks = t.marks := by
  induction h with
  | done => rfl
  | @plus a arguments rest calls v w w' adds inside split behind ihInside ihBehind =>
      have hcalls : (v ++ w).flatMap LocationCall.marks = arguments.marks ++ a.marks := by
        rw [← split, List.flatMap_append, ihInside, List.flatMap_singleton]
        rfl
      have hpair : (LocationCall.startLocation :: (v ++ .endLocation :: w)).flatMap
          LocationCall.marks = arguments.marks ++ a.marks := by
        rw [← hcalls, List.flatMap_cons, List.flatMap_append, List.flatMap_cons,
          List.flatMap_append]
        rfl
      rw [List.flatMap_append, hpair, ihBehind]
      rfl
  | @comma a arguments rest calls w' comma inside behind ihInside ihBehind =>
      have hpair : (LocationCall.startLocation :: (calls ++ [.access a] ++ [.endLocation])).flatMap
          LocationCall.marks = arguments.marks ++ a.marks := by
        rw [List.flatMap_cons, List.flatMap_append, List.flatMap_append, List.flatMap_singleton,
          List.flatMap_singleton, ihInside]
        exact List.append_nil _
      rw [List.flatMap_append, hpair, ihBehind]
      rfl

theorem PhaseOrder.marks {phases : List Phase} {ws : List TraceCall} (h : PhaseOrder phases ws) :
    ws.flatMap TraceCall.marks = phases.flatMap Phase.marks := by
  induction h with
  | nil => rfl
  | accesses first rest ih =>
      rw [List.flatMap_append, List.flatMap_map, List.flatMap_cons, ih]
      exact congrArg (· ++ _) first.marks
  | disable rest ih => rw [List.flatMap_cons, ih]; rfl
  | enable rest ih => rw [List.flatMap_cons, ih]; rfl

/-! ## Programs and their listed accesses -/

/-- From `c` on, `m` makes the accesses `t`. -/
def Tells {α : Type} (m : ArmM α) (c : ArmCore) (t : TracedText) : Prop :=
  (m c).events.filterMap Event.mark? = t.marks

namespace Tells

section

variable {α β : Type} {m m' : ArmM α} {f : α → ArmM β} {c c' : ArmCore} {a : α} {t t' : TracedText}
  {P : Prop} [Decidable P]

theorem pure (a : α) (c : ArmCore) : Tells (Pure.pure a) c .done := rfl

theorem bind (h : Tells m c t) (hf : Tells (f (m c).value) (m c).state t') :
    Tells (m >>= f) c (t ++ t') := by
  rw [Tells, TracedText.marks_append, ← h, ← hf]
  exact List.filterMap_append

/-- A sequence whose first part makes all accesses. -/
theorem bindDone (h : Tells m c t) (hf : Tells (f (m c).value) (m c).state .done) :
    Tells (m >>= f) c t := by
  have hbind := h.bind hf
  rwa [Tells, TracedText.marks_append, TracedText.marks, List.append_nil] at hbind

theorem ite (h : Tells m c t) (h' : Tells m' c t') :
    Tells (if P then m else m') c (if P then t else t') := by
  split
  · exact h
  · exact h'

theorem iteSame (h : Tells m c t) (h' : Tells m' c t) : Tells (if P then m else m') c t := by
  split
  · exact h
  · exact h'

/-- A part that is skipped unless `P`, in front of others. -/
theorem optional {m : ArmM Unit} {f : Unit → ArmM β} (h : Tells m c t)
    (hf : ∀ c, Tells (f ()) c t') :
    Tells (if P then m >>= f else f ()) c ((if P then t else .done) ++ t') := by
  split
  · exact h.bind (hf _)
  · exact hf c

end

/-! ## Conditions, flags and operands -/

section

variable (c : ArmCore)

theorem readRegister (reg : Nat) : Tells (armReadRegister reg) c (traced (.readRegister reg)) := rfl

theorem readCpsr : Tells armReadCpsr c (traced .readCpsr) := rfl

theorem writeRegister (reg : Nat) (value : BitVec 32) :
    Tells (armWriteRegister reg value) c (traced (.writeRegister reg)) := rfl

theorem conditionPassed (u : Locals) (cond : BitVec 8) :
    Tells (Armator.conditionPassed u cond) c conditionPassedLocations := by
  refine (readCpsr c).bindDone ?_
  generalize cond.toNat = k
  match k with
  | 0 | 1 | 2 | 3 | 4 | 5 | 6 | 7 | 8 | 9 | 10 | 11 | 12 | 13 => exact iteSame rfl rfl
  | _ + 14 => exact rfl

theorem updateFlagAt (i : Nat) (indice : BitVec 32) :
    Tells (Armator.updateFlagAt i indice) c updateFlagAtLocations :=
  (readCpsr c).bindDone rfl

/-- The test of bits 63 to 32, which sets V and C. -/
theorem wideFlags (h : Host) (x : BitVec 64) :
    Tells (if getBits63To32 h x ≠ 0 then do updateFlagV 1; updateFlagC 1 else Pure.pure ()) c
      (if getBits63To32 h x ≠ 0 then updateFlagAtLocations ++ updateFlagAtLocations else .done) :=
  ite ((updateFlagAt c V 1).bind (updateFlagAt _ C 1)) (pure () c)

theorem updateFlag (h : Host) (x : BitVec 64) :
    Tells (Armator.updateFlag h x) c (updateFlagLocations h c.cpsr x) := by
  have hneg (c : ArmCore) : Tells (do
      if getBit x 31 = 1 then updateFlagN 1
      if getBits63To32 h x ≠ 0 then
        updateFlagV 1
        updateFlagC 1) c
      ((if getBit x 31 = 1 then updateFlagAtLocations else .done) ++
        if getBits63To32 h x ≠ 0 then updateFlagAtLocations ++ updateFlagAtLocations
        else .done) :=
    optional (updateFlagAt c N 1) fun c => wideFlags c h x
  exact (readCpsr c).bind (ite (optional (updateFlagAt c Z 1) hneg) (pure () c))

theorem returnCarryFlag (operand : BitVec 32) :
    Tells (do return (operand, getBit (← armReadCpsr) C) : ArmM _) c (traced .readCpsr) :=
  (readCpsr c).bindDone rfl

theorem shiftedRegisterOperand (h : Host) (u : Locals) (ins : BitVec 32) :
    Tells (Armator.shiftedRegisterOperand h u ins) c (shiftedRegisterOperandLocations ins) := by
  refine (readRegister c _).bind ?_
  have hcarry := returnCarryFlag c (c.regValue (getBits ins 3 0).toNat)
  have hvalue (x : BitVec 32 × BitVec 32) : Tells (Pure.pure x : ArmM _) c .done := pure x c
  generalize (getBits ins 6 4).toNat = bits4_6
  match bits4_6 with
  | 0 => exact ite hcarry (hvalue _)
  | 1 | 3 => exact ite hcarry (iteSame (hvalue _) (iteSame (hvalue _) (hvalue _)))
  | 2 | 4 => exact iteSame (hvalue _) (hvalue _)
  | 5 => exact ite hcarry (iteSame (hvalue _) (hvalue _))
  | 6 => exact iteSame (hvalue _) (iteSame (hvalue _) (hvalue _))
  | _ + 7 => exact ite hcarry (iteSame (hvalue _) (hvalue _))

theorem dataProcessingOperand (h : Host) (u : Locals) (res : BitVec 32) :
    Tells (Armator.dataProcessingOperand h u res) c (dataProcessingOperandLocations u res) := by
  refine ite (ite ?_ (shiftedRegisterOperand c h u res)) ?_
  · exact (readRegister c _).bind (returnCarryFlag c _)
  · exact ite (returnCarryFlag c _) (pure _ c)

/-- The flags of CMP and CMN. -/
theorem compareFlags (h : Host) (z n : BitVec 32) (x : BitVec 64) :
    Tells (do
      updateFlagZ z
      updateFlagN n
      if getBits63To32 h x ≠ 0 then
        updateFlagV 1
        updateFlagC 1 : ArmM Unit) c
      (updateFlagAtLocations ++ (updateFlagAtLocations ++
        if getBits63To32 h x ≠ 0 then updateFlagAtLocations ++ updateFlagAtLocations
        else .done)) :=
  (updateFlagAt c Z z).bind ((updateFlagAt _ N n).bind (wideFlags _ h x))

/-- The flags of TST and TEQ. -/
theorem testFlags (z n carry : BitVec 32) :
    Tells (do updateFlagZ z; updateFlagN n; updateFlagC carry : ArmM Unit) c
      (updateFlagAtLocations ++ (updateFlagAtLocations ++ updateFlagAtLocations)) :=
  (updateFlagAt c Z z).bind ((updateFlagAt _ N n).bind (updateFlagAt _ C carry))

/-! ## Execution -/

theorem dataProcessing (h : Host) (opcode operand1 operand2 carry : BitVec 32) {rd : Nat}
    (hrd : rd ≠ 16) : Tells (Armator.dataProcessing h opcode operand1 operand2 carry rd) c
      (dataProcessingLocations h c.cpsr opcode operand1 operand2 rd) := by
  have hresult (x : BitVec 32) : Tells (do
      armWriteRegister rd ((x.setWidth 64).setWidth 32)
      Armator.updateFlag h (x.setWidth 64)) c
      (traced (.writeRegister rd) ++ updateFlagLocations h c.cpsr (x.setWidth 64)) := by
    refine (writeRegister c rd _).bind ?_
    -- the CPSR is not the register written
    have hcpsr : (armWriteRegister rd ((x.setWidth 64).setWidth 32) c).state.cpsr = c.cpsr :=
      c.setReg_of_ne (Ne.symm hrd) _
    rw [← hcpsr]
    exact updateFlag _ h _
  unfold Armator.dataProcessing dataProcessingLocations
  generalize opcode.toNat = k
  match k with
  | 0 | 1 | 2 | 3 | 4 | 14 => exact hresult _
  | 5 | 6 | 7 => exact (readCpsr c).bind (hresult _)
  | 8 | 9 => exact testFlags c _ _ _
  | 10 | 11 => exact compareFlags c h _ _ _
  | 12 => exact (updateFlag c h _).bind (writeRegister _ rd _)
  | 13 | _ + 15 => exact writeRegister c rd _

theorem loadStoreByteOrWord (h : Host) (u : Locals) (address rdValue bit20 bit22 : BitVec 32)
    (rd : Nat) : Tells (Armator.loadStoreByteOrWord h u address rdValue bit20 bit22 rd) c
      (loadStoreByteOrWordLocations bit20 bit22 rd) := by
  have hreadWord (c : ArmCore) : Tells (armReadWord address u.word) c (traced .readWord) := rfl
  have hreadByte (c : ArmCore) : Tells (armReadByte address u.byte) c (traced .readByte) := rfl
  have hwriteWord : Tells (armWriteWord address rdValue) c (traced .writeWord) := rfl
  have hwriteByte (x : BitVec 8) : Tells (armWriteByte address x) c (traced .writeByte) := rfl
  refine ite ?_ (ite ?_ (ite ?_ ?_))
  · exact hwriteWord.bind ((hreadWord _).bindDone (pure () _))
  · exact (hwriteByte _).bind ((hreadByte _).bindDone (pure () _))
  · exact (hreadWord c).bind (ite (writeRegister _ rd _) (writeRegister _ rd _))
  · exact (hreadByte c).bind (writeRegister _ rd _)

theorem armBranch (ins : BitVec 32) :
    Tells (Armator.armBranch ins) c (armBranchLocations ins) := by
  have hwritePc (x : BitVec 32) (c : ArmCore) :
      Tells (do armWriteRegister 15 ((← armReadRegister 15) + x); return (0 : Int)) c
        writePcLocations := rfl
  refine ite (hwritePc _ c) ?_
  exact (readRegister c 15).bind ((writeRegister _ 14 _).bind (hwritePc _ _))

/-- A dispatch arm that asks `ConditionPassed` first. -/
theorem conditional {m : ArmM Int} {t : TracedText} (u : Locals) (cond : BitVec 8)
    (hm : Tells m c t) :
    Tells (do if (← Armator.conditionPassed u cond) ≠ 0 then m else return 0) c
      (conditionPassedLocations ++
        if (Armator.conditionPassed u cond c).value ≠ 0 then t else .done) := by
  refine (conditionPassed c u cond).bind ?_
  rw [(quiet_reads.conditionPassed u cond c).state]
  exact ite hm (pure 0 c)

theorem executeFetched (h : Host) (u : Locals) (res instr : BitVec 32) :
    Tells (Armator.executeFetched h u res instr) c (executeFetchedLocations h u res instr c) := by
  have hnothing (c : ArmCore) : Tells (return 0 : ArmM Int) c .done := pure 0 c
  have hrd : (getBits res 15 12).toNat ≠ 16 := by
    rw [getBits_toNat res (by decide)]
    exact Nat.ne_of_lt (Nat.mod_lt _ (by decide))
  refine (readRegister c _).bind ?_
  rw [(armReadRegister_runs (getBits res 19 16).toNat c).value]
  generalize (getBits res 27 26).toNat = bits26_27
  match bits26_27 with
  | 0 =>
      refine ite (hnothing c) (conditional c u _ ?_)
      refine (dataProcessingOperand c h u res).bind ?_
      rw [(quiet_reads.dataProcessingOperand h u res c).state]
      refine (dataProcessing c h _ _ _ _ hrd).bindDone ?_
      exact hnothing _
  | 1 =>
      exact conditional c u _ ((readRegister c _).bind
        ((loadStoreByteOrWord _ h u _ _ _ _ _).bindDone (hnothing _)))
  | 2 => exact ite (hnothing c) (conditional c u _ ((armBranch c instr).bindDone (hnothing _)))
  | _ + 3 => exact iteSame (hnothing c) (hnothing c)

theorem armException (exception : BitVec 8) :
    Tells (Armator.armException exception) c (armExceptionLocations exception) := by
  have hemit : Tells (emit (.exception exception)) c .done := rfl
  have hcpsr : Tells (armWriteCpsr (0x1d3 ||| Exception_bit_9)) c (traced .writeCpsr) := rfl
  have hpc (c : ArmCore) :
      Tells (armWriteUsrRegister 15 0) c (traced (.writeUsrRegister 15)) := rfl
  exact hemit.bind (ite (hcpsr.bind (hpc _)) (pure () c))

theorem armStep (h : Host) (u : Locals) :
    Tells (Armator.armStep h u) c (armStepLocations h u c) := by
  have hfetch : Tells (armFetch u.instr) c (traced .fetch) := rfl
  have hexecute : Tells (armExecuteInstruction h u) c _ :=
    hfetch.bind (executeFetched _ h u _ _)
  refine hexecute.bind ?_
  exact ite ((armException _ _).bindDone (pure _ _)) (pure _ _)

end

end Tells

/-! ## The handlers -/

/-- From `g` on, `m` tells `ms`. -/
def Told {α : Type} (m : GdbM α) (g : Gdb) (ms : List Mark) : Prop :=
  (m g).events.filterMap GdbEvent.mark? = ms

/-- `m` tells nothing. -/
def Untold {α : Type} (m : GdbM α) : Prop := ∀ g, Told m g []

/-- `m` returns from every state and tells `ms`. -/
structure Announces {α : Type} (m : GdbM α) (ms : List Mark) : Prop where
  returns : ∀ g, ∃ a, (m g).value = .ok a
  told : ∀ g, Told m g ms

section

variable {α β : Type} {m m' : GdbM α} {f : α → GdbM β} {g : Gdb} {a : α} {ms ms' : List Mark}

theorem Told.bind (hvalue : (m g).value = .ok a) (h : Told m g ms)
    (hf : Told (f a) (m g).state ms') : Told (m >>= f) g (ms ++ ms') := by
  rw [Told, bind_of_ok hvalue, List.filterMap_append, h, hf]

theorem told_liftArm {m : ArmM α} {t : TracedText} (h : Tells m g.arm t) :
    Told (liftArm m) g t.marks := by
  rw [Told, liftArm_eq, List.filterMap_map]
  exact h

/-- The accesses of the processor, in front of others. -/
theorem Told.arm {m : ArmM α} {t : TracedText} (h : Tells m g.arm t)
    (hf : Told (f (m g.arm).value) (g.withArm (m g.arm).state) ms) :
    Told (liftArm m >>= f) g (t.marks ++ ms) := by
  refine Told.bind (a := (m g.arm).value) ?_ (told_liftArm h) ?_
  · rw [liftArm_eq]
  · rw [liftArm_eq]
    exact hf

theorem plainProperty_untold : PlainProperty @Untold where
  pure a g := rfl
  bind {α β m f} hm hf g := by
    cases hvalue : (m g).value with
    | ok a => exact (hm g).bind hvalue (hf a _)
    | error fault =>
        rw [Told, bind_of_error hvalue]
        exact hm g
  emit e he g := by
    cases e with
    | arm e | traceDisable | traceEnable | errorStore o => cases he
    | send bytes | shutdown | store o n | load o | unassigned | absent => rfl
  get g := rfl
  modify f g := rfl
  throw fault g := rfl

/-- A program in front of one that tells nothing. -/
theorem Told.thenUntold (h : Told m g ms) (hf : ∀ a, Untold (f a)) : Told (m >>= f) g ms := by
  cases hvalue : (m g).value with
  | ok a =>
      have hbind := h.bind hvalue (hf a _)
      rwa [List.append_nil] at hbind
  | error fault =>
      rw [Told, bind_of_error hvalue]
      exact h

namespace Announces

theorem toldBind (h : Announces m ms) (hf : ∀ a g, Told (f a) g ms') (g : Gdb) :
    Told (m >>= f) g (ms ++ ms') := by
  obtain ⟨a, ha⟩ := h.returns g
  exact (h.told g).bind ha (hf a _)

theorem bind (h : Announces m ms) (hf : ∀ a, Announces (f a) ms') :
    Announces (m >>= f) (ms ++ ms') := by
  refine ⟨fun g => ?_, h.toldBind fun a => (hf a).told⟩
  obtain ⟨a, ha⟩ := h.returns g
  rw [bind_of_ok ha]
  exact (hf a).returns _

theorem pure (a : α) : Announces (Pure.pure a) [] := ⟨fun _ => ⟨a, rfl⟩, fun _ => rfl⟩

theorem get : Announces getGdb [] := ⟨fun g => ⟨g, rfl⟩, fun _ => rfl⟩

theorem disable : Announces (gdbEmit .traceDisable) [.disable] := ⟨fun _ => ⟨(), rfl⟩, fun _ => rfl⟩

theorem enable : Announces (gdbEmit .traceEnable) [.enable] := ⟨fun _ => ⟨(), rfl⟩, fun _ => rfl⟩

/-- What the accesses of the processor tell. -/
theorem arm {m : ArmM α} {t : TracedText} (h : ∀ c, Tells m c t) :
    Announces (liftArm m) t.marks := by
  refine ⟨fun g => ⟨(m g.arm).value, ?_⟩, fun g => told_liftArm (h g.arm)⟩
  rw [liftArm_eq]

end Announces

end

section

variable (cfg : GdbConfig) (u : GdbLocals) (data : List Byte) (g : Gdb)

theorem announces_writeUint32 (o : Nat) (value : BitVec 32) :
    Announces (writeUint32 cfg o value) [] :=
  ⟨fun g => ⟨(), (writeUint32_runs cfg g o value).value⟩,
    plainProperty_untold.writeUint32 cfg o value⟩

theorem announces_readUint32 (value : Nat → BitVec 32) (o : Nat) :
    Announces (readUint32 cfg value data o) [] :=
  ⟨fun g => ⟨_, (readUint32_runs cfg g value data o).value⟩,
    plainProperty_untold.readUint32 cfg data value o⟩

theorem announces_writeRegisters (rs : List Nat) (o : Nat) :
    Announces (writeRegisters cfg rs o) (rs.map (.register .read)) := by
  induction rs generalizing o with
  | nil => exact .pure ()
  | cons i is ih =>
      exact (Announces.arm fun c => .readRegister c i).bind fun _ =>
        (announces_writeUint32 cfg o _).bind fun _ => ih _

theorem announces_readRegisters (rs : List Nat) (o : Nat) :
    Announces (readRegisters cfg u data rs o) (rs.map (.register .write)) := by
  induction rs generalizing o with
  | nil => exact .pure ()
  | cons i is ih =>
      exact (announces_readUint32 cfg data u.value o).bind fun _ =>
        (Announces.arm fun c => .writeRegister c i _).bind fun _ => ih _

theorem untraced_marks (t : TracedText) :
    (untraced t).flatMap Phase.marks = [.disable] ++ (t.marks ++ [.enable]) := rfl

theorem readGeneralRegisters_told :
    Told (readGeneralRegisters cfg) g (readGeneralRegistersPhases.flatMap Phase.marks) := by
  have hunavailable (n o : Nat) : Announces (writeUnavailable n o) [] :=
    ⟨fun g => ⟨(), (writeUnavailable_runs g n o).value⟩, plainProperty_untold.writeUnavailable n o⟩
  have htold := Announces.disable.toldBind fun _ => Announces.get.toldBind fun g =>
    (announces_writeRegisters cfg (List.range 15) g.buffer).toldBind fun _ =>
      (Announces.arm fun c => .readRegister c 15).toldBind fun r15 =>
        (announces_writeUint32 cfg (g.buffer + 8 * 15) (r15 - 4)).toldBind fun _ =>
          (hunavailable (8 * 3 + 1) (g.buffer + 8 * 15 + 8)).toldBind fun _ =>
            (Announces.arm .readCpsr).toldBind fun cpsr =>
              (announces_writeUint32 cfg (g.buffer + 8 * 15 + 8 + 8 * (8 * 3 + 1)) cpsr).toldBind
                fun _ => Announces.enable.toldBind fun _ => plainProperty_untold.gdbSendBuffer
  exact htold g

theorem writeGeneralRegisters_told :
    Told (writeGeneralRegisters cfg u data) g
      (writeGeneralRegistersPhases.flatMap Phase.marks) := by
  have hunavailable (n o : Nat) : Announces (readUnavailable cfg u data n o) [] :=
    ⟨fun g => ⟨(), (readUnavailable_runs cfg u data g n o).value⟩,
      plainProperty_untold.readUnavailable cfg u data n o⟩
  have hcpsr (value : BitVec 32) (c : ArmCore) :
      Tells (armWriteCpsr value) c (traced .writeCpsr) := rfl
  have htold := Announces.disable.toldBind fun _ =>
    (announces_readRegisters cfg u data (List.range 16) 0).toldBind fun _ =>
      (hunavailable (8 * 3 + 1) (0 + 8 * 16)).toldBind fun _ =>
        (announces_readUint32 cfg data u.value (0 + 8 * 16 + 8 * (8 * 3 + 1))).toldBind
          fun value => (Announces.arm (hcpsr value)).toldBind fun _ =>
            Announces.enable.toldBind fun _ => plainProperty_untold.gdbSendData (text ['O', 'K'])
  exact htold g

theorem readRegisterHandler_told :
    Told (readRegisterHandler cfg data) g ((readRegisterPhases data).flatMap Phase.marks) := by
  have hload := (loadString_runs g data 0).value
  refine Told.bind hload (plainProperty_untold.loadString data 0 g) ?_
  rw [List.drop_zero, readRegisterPhases]
  dsimp only
  by_cases hreg : atoi (cstring data) < 16
  · rw [if_pos hreg, if_pos hreg]
    have htold := Announces.disable.toldBind fun _ => Announces.get.toldBind fun g =>
      (Announces.arm fun c => .readRegister c (atoi (cstring data)).toNat).toldBind fun value =>
        (announces_writeUint32 cfg g.buffer
          (value - if atoi (cstring data) = 15 then 4 else 0)).toldBind fun _ =>
            Announces.enable.toldBind fun _ => plainProperty_untold.gdbSendBuffer
    exact htold _
  · rw [if_neg hreg, if_neg hreg]
    rfl

theorem writeRegisterHandler_told :
    Told (writeRegisterHandler cfg u data) g
      ((writeRegisterPhases u data).flatMap Phase.marks) := by
  refine Told.bind (scanRegister_runs u data g).value
    (plainProperty_untold.scanRegister u data g) ?_
  refine Told.bind (pointAfter_runs data _ (chr '=')).value
    (plainProperty_untold.pointAfter data (chr '=') _) ?_
  rw [afterChar]
  cases hindex : index data (chr '=') with
  | none =>
      rw [writeRegisterPhases, hindex]
      rfl
  | some k =>
      have hphases : writeRegisterPhases u data = if givenReg u data < 16 then
          untraced (traced (.writeRegister (givenReg u data).toNat)) else [] := by
        rw [writeRegisterPhases, hindex]
        rfl
      rw [hphases]
      have hvalue := announces_readUint32 cfg data u.value (k + 1)
      by_cases hreg : givenReg u data < 16
      · simp only [if_pos hreg]
        have htold := hvalue.toldBind fun value => Announces.disable.toldBind fun _ =>
          (Announces.arm fun c => .writeRegister c (givenReg u data).toNat value).toldBind
            fun _ => Announces.enable.toldBind fun _ =>
              plainProperty_untold.gdbSendData (text ['O', 'K'])
        exact htold _
      · simp only [if_neg hreg]
        have hfault : Untold (throw .assertion : GdbM Unit) := plainProperty_untold.throw .assertion
        have htold := hvalue.toldBind fun _ => hfault
        exact htold _

/-- Each iteration of `cont` looks ahead with the trace disabled, and steps with it enabled. -/
theorem contLoop_told (fuel k : Nat) (instruction : BitVec 32) :
    Told (contLoop cfg u fuel k instruction) g
      ((contLoopPhases cfg u fuel k instruction g.arm).flatMap Phase.marks) := by
  induction fuel generalizing k instruction g with
  | zero => rfl
  | succ fuel ih =>
      have hword (r15 : BitVec 32) (c : ArmCore) :
          Tells (armReadWord r15 instruction) c (traced .readWord) := rfl
      -- what follows the look at the next instruction
      have hstep (word : BitVec 32) (g : Gdb) : Told (if word &&& 0xFFF000F0 = 0xE7F000F0
          then pure ()
          else do
            let result ← liftArm (armStep cfg.host (u.steps k))
            modifyGdb fun g => { g with targetException := result }
            contLoop cfg u fuel (k + 1) word : GdbM Unit) g
          ((if word &&& 0xFFF000F0 = 0xE7F000F0 then []
            else .accesses (armStepLocations cfg.host (u.steps k) g.arm) ::
              contLoopPhases cfg u fuel (k + 1) word
                (armStep cfg.host (u.steps k) g.arm).state).flatMap Phase.marks) := by
        by_cases hbreak : word &&& 0xFFF000F0 = 0xE7F000F0
        · rw [if_pos hbreak, if_pos hbreak]
          rfl
        · rw [if_neg hbreak, if_neg hbreak, List.flatMap_cons]
          exact Told.arm (.armStep _ cfg.host (u.steps k)) (Told.bind (a := ()) rfl rfl (ih _ _ _))
      rw [contLoopPhases, List.flatMap_append, untraced_marks, TracedText.marks_append,
        traced_marks, traced_marks, List.append_assoc, List.append_assoc, List.append_assoc]
      exact Told.bind (a := ()) rfl rfl (Told.arm (.readRegister _ 15) (Told.arm (hword _ _)
        (Told.bind (a := ()) rfl rfl (hstep _ _))))

theorem command_told (command : Command) :
    Told (command.run cfg u data) g ((command.phases cfg u data g.arm).flatMap Phase.marks) := by
  have hstop : Untold gdbSendStopReason := plainProperty_untold.gdbSendStopReason
  cases command with
  | cont => exact (contLoop_told cfg u g u.fuel 0 u.instruction).thenUntold fun _ => hstop
  | killRequest => exact plainProperty_untold.killRequest g
  | query => exact plainProperty_untold.query data g
  | readGeneralRegisters => exact readGeneralRegisters_told cfg g
  | readMemory => exact plainProperty_untold.readMemory u data g
  | readRegister => exact readRegisterHandler_told cfg data g
  | reason => exact hstop g
  | setThread => exact plainProperty_untold.setThread data g
  | step =>
      exact Told.arm (.armStep _ cfg.host (u.steps 0))
        (plainProperty_untold.bind (plainProperty_untold.modify _) (fun _ => hstop) _)
  | writeGeneralRegisters => exact writeGeneralRegisters_told cfg u data g
  | writeMemoryBinary => exact plainProperty_untold.writeMemoryBinary u data g
  | writeRegister => exact writeRegisterHandler_told cfg u data g

theorem simCall_told (call : SimCall) :
    Told (call.run cfg) g ((call.phases cfg g.arm).flatMap Phase.marks) := by
  cases call with
  | armStep u => exact Told.arm (.armStep _ cfg.host u) rfl
  | armException exception =>
      have htold := told_liftArm (g := g) (.armException g.arm exception)
      rw [← List.append_nil (TracedText.marks _)] at htold
      exact htold
  | handler command u data => exact command_told cfg u data g command

/-- **The accesses of an order of evaluation are those of the run.** -/
theorem SimOrder.marks {calls : List SimCall} {g : Gdb} {wss : List (List TraceCall)}
    (h : SimOrder cfg calls g wss) :
    wss.flatten.flatMap TraceCall.marks
      = (simRun cfg calls g).events.filterMap GdbEvent.mark? := by
  induction h with
  | nil g => rfl
  | @next call calls g ws wss returns order rest ih =>
      have hrun : Told (call.run cfg >>= fun _ => simRun cfg calls) g _ :=
        (simCall_told cfg g call).bind returns rfl
      rw [List.flatten_cons, List.flatMap_append, order.marks, ih]
      exact hrun.symm
  | @fault call calls g ws fault stops order =>
      have hrun : simRun cfg (call :: calls) g = _ := bind_of_error stops
      rw [List.flatten_singleton, order.marks, hrun]
      exact (simCall_told cfg g call).symm

end

end Armator
