import Armator.Basic.TraceText
import Armator.Laws.Replay
import Armator.Lib.Readable
import Armator.Semantics.Locations

set_option autoImplicit false

/-! # The text of a trace

The trace of a run is printed without leaving a table or a buffer (`traceText_printed`), and its
text determines the accesses of the run, and with them what becomes of the memory and of the
registers (`traceText_determines`).
-/

namespace Armator

open Logged CString Readable

/-! ## Numbers -/

theorem upperHexDigit_value : ∀ n < 16, digitValue (upperHexDigit n) = n := by decide

theorem upperHex8_length (v : BitVec 32) : (upperHex8 v).length = 8 := rfl

theorem upperHex8_value (v : BitVec 32) : valueIn 16 (upperHex8 v) = v.toNat := by
  have hdigit (k : Nat) :
      digitValue (upperHexDigit (v.toNat / 16 ^ k % 16)) = v.toNat / 16 ^ k % 16 :=
    upperHexDigit_value _ (Nat.mod_lt _ (by decide))
  have hlt := v.isLt
  show List.foldl (fun w b => 16 * w + digitValue b) 0
    ([7, 6, 5, 4, 3, 2, 1, 0].map fun k => upperHexDigit (v.toNat / 16 ^ k % 16)) = v.toNat
  simp only [List.map_cons, List.map_nil, List.foldl_cons, List.foldl_nil, hdigit]
  omega

theorem upperHex8_inj {v w : BitVec 32} (h : upperHex8 v = upperHex8 w) : v = w := by
  refine BitVec.eq_of_toNat_eq ?_
  rw [← upperHex8_value v, h, upperHex8_value]

theorem hexDigit_isDigit : ∀ n < 10, isDigit (hexDigit n) = true := by decide

theorem decimal_isDigit (n : Nat) : ∀ b ∈ decimal n, isDigit b = true := by
  induction n using decimal.induct with
  | case1 n hn =>
      rw [decimal, if_pos hn]
      exact List.forall_mem_singleton.mpr (hexDigit_isDigit n hn)
  | case2 n hn ih =>
      rw [decimal, if_neg hn]
      exact List.forall_mem_append.mpr
        ⟨ih, List.forall_mem_singleton.mpr (hexDigit_isDigit _ (Nat.mod_lt _ (by decide)))⟩

theorem decimal_value (n : Nat) : valueIn 10 (decimal n) = n := by
  induction n using decimal.induct with
  | case1 n hn =>
      rw [decimal, if_pos hn, ← List.nil_append [hexDigit n], valueIn_concat,
        digitValue_hexDigit (by omega)]
      exact Nat.zero_add n
  | case2 n hn ih =>
      rw [decimal, if_neg hn, valueIn_concat, ih, digitValue_hexDigit (by omega)]
      omega

theorem decimal_inj {n m : Nat} (h : decimal n = decimal m) : n = m := by
  rw [← decimal_value n, h, decimal_value]

theorem signedDecimal_inj {v w : Int} (h : signedDecimal v = signedDecimal w) : v = w := by
  -- a digit is no sign
  have hsign {n m : Nat} : chr '-' :: decimal n ≠ decimal m := fun heq =>
    absurd (decimal_isDigit m (chr '-') (heq ▸ List.mem_cons_self)) (by decide)
  unfold signedDecimal at h
  split at h <;> split at h
  · have habs := decimal_inj (List.cons.inj h).2
    omega
  · exact absurd h hsign
  · exact absurd h.symm hsign
  · have habs := decimal_inj h
    omega

theorem comma_not_mem_signedDecimal (v : Int) : chr ',' ∉ signedDecimal v := by
  have hcomma (n : Nat) : chr ',' ∉ decimal n := fun hmem =>
    absurd (decimal_isDigit n _ hmem) (by decide)
  unfold signedDecimal
  split
  · rw [List.mem_cons, not_or]
    exact ⟨by decide, hcomma _⟩
  · exact hcomma _

/-! ## Lines -/

structure MemoryCall where
  seq : Bool
  cycle : BitVec 32
  type : Access
  size : Nat
  cause : Cause
  address : BitVec 32
  value : BitVec 32

structure RegisterCall where
  cycle : BitVec 32
  type : Access
  reg : Nat
  mode : BitVec 8
  value : BitVec 32

/-- A call that is printed. -/
inductive TraceLine
  | memory (c : MemoryCall)
  | register (c : RegisterCall)

/-- What both formats tell of a call. -/
inductive ToldCall
  | memory (type : Access) (size : Nat) (cause : Cause) (address value : BitVec 32)
  | register (type : Access) (reg : Nat) (value : BitVec 32)
deriving DecidableEq

def registerName (reg : Nat) (mode : BitVec 8) : List Byte :=
  (armGetRegisterName reg).getD [] ++ (modeName mode).getD []

namespace TraceLine

def text (f : TraceFormat) : TraceLine → List Byte
  | memory c => memoryLine f c.seq c.cycle c.type c.size c.cause c.address c.value
  | register c => registerLine f c.cycle c.type (registerName c.reg c.mode) c.value

def told : TraceLine → ToldCall
  | memory c => .memory c.type c.size c.cause c.address c.value
  | register c => .register c.type c.reg c.value

def Printable : TraceLine → Prop
  | memory c => c.size < 10
  | register c => c.reg < 18 ∧ c.mode.toNat < 32

end TraceLine

section

variable {α : Type} {P : α → Prop}

theorem reads_upperHex8 (v : α → BitVec 32) : Reads P (fun a => upperHex8 (v a)) v :=
  .ofLength (fun _ _ => upperHex8_length _) fun _ _ _ _ => upperHex8_inj

/-- The size of an access has one digit. -/
theorem reads_size {size : α → Nat} (h : ∀ a, P a → size a < 10) :
    Reads P (fun a => decimal (size a)) size := by
  refine .ofLength (n := 1) (fun a ha => ?_) fun _ _ _ _ => decimal_inj
  rw [decimal, if_pos (h a ha)]
  rfl

theorem reads_type (f : TraceFormat) (type : α → Access) :
    Reads P (fun a => f.type (type a)) type := by
  refine .table f.type (fun i j => ?_) type
  cases f <;> cases i <;> cases j <;> decide

theorem reads_cycle (cycle : α → BitVec 32) : Reads P (fun a => cycleText (cycle a)) cycle := by
  have hcycle : Reads P (fun a => signedDecimal (cycle a).toInt ++ chr ',' :: [chr ' ']) cycle :=
    .terminated _ _ (fun a _ => comma_not_mem_signedDecimal _) fun _ _ _ _ heq =>
      BitVec.eq_of_toInt_eq (signedDecimal_inj heq)
  exact (hcycle.behind _).assoc

/-! ### Memory -/

theorem reads_memoryLine (f : TraceFormat) :
    Reads (fun c : MemoryCall => c.size < 10)
      (fun c => memoryLine f c.seq c.cycle c.type c.size c.cause c.address c.value)
      fun c => ToldCall.memory c.type c.size c.cause c.address c.value := by
  have hsize : Reads (fun c : MemoryCall => c.size < 10) (fun c => decimal c.size)
      MemoryCall.size := reads_size fun _ hc => hc
  cases f with
  | arm =>
      have hseq : Reads (fun c : MemoryCall => c.size < 10)
          (fun c => TraceFormat.arm.memorySeq c.seq) MemoryCall.seq :=
        .table _ (by decide) _
      have hcause : Reads (fun c : MemoryCall => c.size < 10)
          (fun c => TraceFormat.arm.memoryCause c.cause) MemoryCall.cause := by
        refine .table _ (fun i j => ?_) _
        cases i <;> cases j <;> decide
      have hline := ((((((((((Reads.const _ (CString.text ['M'])).append hseq).append
        (reads_type .arm MemoryCall.type)).append hsize).append hcause).before
        (CString.text ['_', '_', ' '])).append (reads_upperHex8 MemoryCall.address)).before
        (CString.text [' '])).append (reads_upperHex8 MemoryCall.value)).before
        (CString.text ['\n']))
      exact hline.map fun x => ToldCall.memory x.1.1.1.1.2 x.1.1.1.2 x.1.1.2 x.1.2 x.2
  | plain =>
      -- a cause is told from the text behind it
      have hcause : Reads (fun c : MemoryCall => c.size < 10)
          (fun c => TraceFormat.plain.memoryCause c.cause ++
            CString.text [')', ' ', 'a', 'd', 'd', 'r', ':', ' ']) MemoryCall.cause := by
        refine .table (fun cause => TraceFormat.plain.memoryCause cause ++
            CString.text [')', ' ', 'a', 'd', 'd', 'r', ':', ' ']) (fun i j => ?_) _
        cases i <;> cases j <;> decide
      have hline := ((((((((((((reads_cycle MemoryCall.cycle).before
        (CString.text ['M', 'e', 'm', ' '])).before []).append
        (reads_type .plain MemoryCall.type)).before (CString.text [' ', '('])).append hsize).before
        (CString.text [' ', 'b', 'y', 't', 'e', 's'])).append hcause).assoc).append
        (reads_upperHex8 MemoryCall.address)).before
        (CString.text [',', ' ', 'v', 'a', 'l', ':', ' '])).append
        (reads_upperHex8 MemoryCall.value)).before (CString.text ['\n'])
      exact hline.map fun x => ToldCall.memory x.1.1.1.1.2 x.1.1.1.2 x.1.1.2 x.1.2 x.2

end

/-! ### Registers -/

def Named (c : RegisterCall) : Prop := c.reg < 18 ∧ c.mode.toNat < 32

/-- Facts about the names of 18 registers in 32 modes. -/
theorem Named.cases {c : RegisterCall} (hc : Named c) {Q : Nat → BitVec 8 → Prop}
    (h : ∀ r : Fin 18, ∀ m : Fin 32, Q r (BitVec.ofNat 8 m)) : Q c.reg c.mode := by
  have hcase := h ⟨c.reg, hc.1⟩ ⟨c.mode.toNat, hc.2⟩
  rw [BitVec.ofNat_toNat, BitVec.setWidth_eq] at hcase
  exact hcase

theorem Named.separate {c : RegisterCall} (hc : Named c) :
    chr ' ' ∉ registerName c.reg c.mode ∧ chr ',' ∉ registerName c.reg c.mode :=
  hc.cases (Q := fun r m => chr ' ' ∉ registerName r m ∧ chr ',' ∉ registerName r m)
    (by decide +kernel)

/-- The name of the mode begins with an underscore. -/
theorem Named.register {c : RegisterCall} (hc : Named c) :
    (registerName c.reg c.mode).takeWhile (· ≠ chr '_') = (armGetRegisterName c.reg).getD [] :=
  hc.cases (Q := fun r m => (registerName r m).takeWhile (· ≠ chr '_')
    = (armGetRegisterName r).getD []) (by decide +kernel)

theorem registerName_inj {c c' : RegisterCall} (hc : Named c) (hc' : Named c')
    (h : registerName c.reg c.mode = registerName c'.reg c'.mode) : c.reg = c'.reg := by
  have hnames : ∀ r r' : Fin 18,
      (armGetRegisterName r).getD [] = (armGetRegisterName r').getD [] → r = r' := by
    decide +kernel
  have hregister : (armGetRegisterName c.reg).getD [] = (armGetRegisterName c'.reg).getD [] := by
    rw [← hc.register, h, hc'.register]
  exact congrArg Fin.val (hnames ⟨c.reg, hc.1⟩ ⟨c'.reg, hc'.1⟩ hregister)

theorem reads_registerLine (f : TraceFormat) :
    Reads Named (fun c => registerLine f c.cycle c.type (registerName c.reg c.mode) c.value)
      fun c => ToldCall.register c.type c.reg c.value := by
  cases f with
  | arm =>
      have hname : Reads Named (fun c => registerName c.reg c.mode ++ CString.text [' '])
          RegisterCall.reg :=
        .terminated _ _ (fun c hc => hc.separate.1) fun c c' hc hc' => registerName_inj hc hc'
      have hline := ((((((Reads.const Named (CString.text ['R'])).append
        (reads_type .arm RegisterCall.type)).before
        (CString.text [' '])).append hname).assoc).append
        (reads_upperHex8 RegisterCall.value)).before (CString.text ['\n'])
      exact hline.map fun x => ToldCall.register x.1.1.2 x.1.2 x.2
  | plain =>
      have hname : Reads Named (fun c => registerName c.reg c.mode ++
          CString.text [',', ' ', 'v', 'a', 'l', ':', ' ']) RegisterCall.reg :=
        .terminated _ _ (fun c hc => hc.separate.2) fun c c' hc hc' => registerName_inj hc hc'
      have hline := (((((((reads_cycle RegisterCall.cycle).before
        (CString.text ['R', 'e', 'g', 'i', 's', 't', 'e', 'r', ' '])).append
        (reads_type .plain RegisterCall.type)).before (CString.text [',', ' '])).append
        hname).assoc).append (reads_upperHex8 RegisterCall.value)).before (CString.text ['\n'])
      exact hline.map fun x => ToldCall.register x.1.1.2 x.1.2 x.2

/-! ### Both -/

/-- A line of one kind is no line of the other. -/
theorem memoryLine_ne_registerLine (f : TraceFormat) (c : MemoryCall) (c' : RegisterCall)
    (s s' : List Byte) :
    memoryLine f c.seq c.cycle c.type c.size c.cause c.address c.value ++ s
      ≠ registerLine f c'.cycle c'.type (registerName c'.reg c'.mode) c'.value ++ s' := by
  intro heq
  cases f with
  | arm => exact absurd (List.cons.inj heq).1 (by decide)
  | plain =>
      simp only [memoryLine, registerLine, List.append_assoc] at heq
      have hrest := (reads_cycle (P := fun _ : BitVec 32 => True) id _ _ _ _ trivial trivial heq).2
      exact absurd (List.cons.inj hrest).1 (by decide)

/-- **A line can be read back.** -/
theorem reads_line (f : TraceFormat) :
    Reads TraceLine.Printable (TraceLine.text f) TraceLine.told := by
  intro a a' s s' ha ha' heq
  cases a with
  | memory c =>
      cases a' with
      | memory c' => exact reads_memoryLine f c c' s s' ha ha' heq
      | register c' => exact absurd heq (memoryLine_ne_registerLine f c c' s s')
  | register c =>
      cases a' with
      | memory c' => exact absurd heq.symm (memoryLine_ne_registerLine f c' c s' s)
      | register c' => exact reads_registerLine f c c' s s' ha ha' heq

/-! ## The calls of a step -/

/-- The tables have a name for the register, and the size has one digit. -/
def Mark.tabled : Mark → Prop
  | .register _ reg => reg < 18
  | .memory _ size _ => size < 10
  | _ => True

instance (m : Mark) : Decidable m.tabled := by
  cases m with
  | register _ reg => exact inferInstanceAs (Decidable (reg < 18))
  | memory _ size _ => exact inferInstanceAs (Decidable (size < 10))
  | _ => exact inferInstanceAs (Decidable True)

/-- The calls of the macros of a text. -/
def TracedText.Tabled (t : TracedText) : Prop := ∀ m ∈ t.marks, m.tabled

instance (t : TracedText) : Decidable t.Tabled := inferInstanceAs (Decidable (∀ m ∈ _, _))

namespace TracedText.Tabled

variable {t t' : TracedText} {P : Prop} [Decidable P]

theorem done : TracedText.done.Tabled := List.forall_mem_nil _

theorem append (h : t.Tabled) (h' : t'.Tabled) : (t ++ t').Tabled := by
  rw [Tabled, marks_append]
  exact List.forall_mem_append.mpr ⟨h, h'⟩

theorem ite (h : t.Tabled) (h' : t'.Tabled) : (if P then t else t').Tabled := by
  split
  · exact h
  · exact h'

theorem readRegister {reg : Nat} (hreg : reg < 18) : (traced (.readRegister reg)).Tabled :=
  List.forall_mem_singleton.mpr hreg

theorem writeRegister {reg : Nat} (hreg : reg < 18) : (traced (.writeRegister reg)).Tabled :=
  List.forall_mem_singleton.mpr hreg

theorem readCpsr : (traced .readCpsr).Tabled := readRegister (by decide : CPSR < 18)

theorem memory {type : Access} {size : Nat} {cause : Cause} {a : TracedAccess}
    (ha : a.marks = [.memory type size cause]) (hsize : size < 10) : (traced a).Tabled := by
  rw [Tabled, traced_marks, ha]
  exact List.forall_mem_singleton.mpr hsize

/-- The number of a register is a field of four bits. -/
theorem field_lt (w : BitVec 32) {hi lo : Nat} (h : hi - lo = 3) :
    (getBits w hi lo).toNat < 18 := by
  rw [getBits_toNat w (by omega), h]
  omega

theorem updateFlag (h : Host) (flag : BitVec 32) (x : BitVec 64) :
    (updateFlagLocations h flag x).Tabled :=
  readCpsr.append <| ite ((ite readCpsr done).append
    ((ite readCpsr done).append (ite (readCpsr.append readCpsr) done))) done

theorem shiftedRegisterOperand (ins : BitVec 32) :
    (shiftedRegisterOperandLocations ins).Tabled := by
  have hcarry (P : Prop) [Decidable P] : (if P then traced .readCpsr else .done).Tabled :=
    ite readCpsr done
  refine (readRegister (field_lt ins rfl)).append ?_
  generalize (getBits ins 6 4).toNat = k
  match k with
  | 0 | 1 | 3 | 5 => exact hcarry _
  | 2 | 4 | 6 => exact done
  | _ + 7 => exact hcarry _

theorem dataProcessingOperand (u : Locals) (res : BitVec 32) :
    (dataProcessingOperandLocations u res).Tabled :=
  ite (ite ((readRegister (field_lt res rfl)).append readCpsr) (shiftedRegisterOperand res))
    (ite readCpsr done)

theorem dataProcessing (h : Host) (flag opcode operand1 operand2 : BitVec 32) {rd : Nat}
    (hrd : rd < 18) : (dataProcessingLocations h flag opcode operand1 operand2 rd).Tabled := by
  have hresult (x : BitVec 32) :
      (traced (.writeRegister rd) ++ updateFlagLocations h flag (x.setWidth 64)).Tabled :=
    (writeRegister hrd).append (updateFlag h flag _)
  have hcompare (x : BitVec 32) : (updateFlagAtLocations ++ (updateFlagAtLocations ++
      if getBits63To32 h (x.setWidth 64) ≠ 0 then updateFlagAtLocations ++ updateFlagAtLocations
      else .done)).Tabled :=
    readCpsr.append (readCpsr.append (ite (readCpsr.append readCpsr) done))
  unfold dataProcessingLocations
  generalize opcode.toNat = k
  match k with
  | 0 | 1 | 2 | 3 | 4 | 14 => exact hresult _
  | 5 | 6 | 7 => exact readCpsr.append (hresult _)
  | 8 | 9 => exact readCpsr.append (readCpsr.append readCpsr)
  | 10 | 11 => exact hcompare _
  | 12 => exact (updateFlag h flag _).append (writeRegister hrd)
  | 13 | _ + 15 => exact writeRegister hrd

theorem loadStoreByteOrWord (bit20 bit22 : BitVec 32) {rd : Nat} (hrd : rd < 18) :
    (loadStoreByteOrWordLocations bit20 bit22 rd).Tabled :=
  ite ((memory rfl (by decide)).append (memory rfl (by decide))) <|
    ite ((memory rfl (by decide)).append (memory rfl (by decide))) <|
      ite ((memory rfl (by decide)).append (ite (writeRegister hrd) (writeRegister hrd)))
        ((memory rfl (by decide)).append (writeRegister hrd))

theorem armBranch (ins : BitVec 32) : (armBranchLocations ins).Tabled := by
  have hwritePc : writePcLocations.Tabled := by decide
  exact ite hwritePc ((readRegister (by decide)).append
    ((writeRegister (by decide)).append hwritePc))

theorem executeFetched (h : Host) (u : Locals) (res instr : BitVec 32) (c : ArmCore) :
    (executeFetchedLocations h u res instr c).Tabled := by
  have hrd : (getBits res 15 12).toNat < 18 := field_lt res rfl
  have hconditional {t : TracedText} (ht : t.Tabled) : (conditionPassedLocations ++
      if (conditionPassed u ((getBits res 31 28).setWidth 8) c).value ≠ 0 then t
        else .done).Tabled :=
    readCpsr.append (ite ht done)
  refine (readRegister (field_lt res rfl)).append ?_
  split
  · exact ite done (hconditional ((dataProcessingOperand u res).append
      (dataProcessing h _ _ _ _ hrd)))
  · exact hconditional ((readRegister hrd).append (loadStoreByteOrWord _ _ hrd))
  · exact ite done (hconditional (armBranch instr))
  · exact done

theorem armException (exception : BitVec 8) : (armExceptionLocations exception).Tabled := by
  have hreset : (traced .writeCpsr ++ traced (.writeUsrRegister 15)).Tabled := by decide
  exact ite hreset done

theorem armStep (h : Host) (u : Locals) (c : ArmCore) : (armStepLocations h u c).Tabled := by
  have hfetch : (traced .fetch).Tabled := by decide
  exact (hfetch.append (executeFetched h u _ _ _)).append (ite (armException _) done)

end TracedText.Tabled

/-! ## The events of a run -/

/-- The call can be printed: the tables have its names, and its size has one digit. -/
def Event.Printable : Event → Prop
  | .register _ _ reg mode _ => reg < 18 ∧ mode.toNat < 32
  | .memory _ _ size _ _ _ => size < 10
  | .exception _ => True

/-- The table of the modes has an entry for the mode. -/
def Event.Moded : Event → Prop
  | .register _ _ _ mode _ => mode.toNat < 32
  | _ => True

theorem getMode_lt (r : Registers) : (getMode r).toNat < 32 := by
  have hle : (r.rData 16 &&& 0b11111).toNat ≤ 31 := by
    rw [BitVec.toNat_and]
    exact Nat.and_le_right
  rw [getMode, BitVec.toNat_setWidth]
  omega

section

/-- Every event of `m` has a mode of the table. -/
def ModesKnown {α : Type} (m : ArmM α) : Prop := ∀ c, ∀ e ∈ (m c).events, e.Moded

theorem ModesKnown.one {α : Type} {m : ArmM α} {e : ArmCore → Event}
    (hevents : ∀ c, (m c).events = [e c]) (he : ∀ c, (e c).Moded) : ModesKnown m := by
  intro c
  rw [hevents c]
  exact List.forall_mem_singleton.mpr (he c)

theorem sequential_modesKnown : Sequential @ModesKnown where
  pure _ _ := List.forall_mem_nil _
  bind hm hf c := List.forall_mem_append.mpr ⟨hm c, hf _ _⟩

/-- Modes are read from the CPSR, or they are constants. -/
theorem modesKnown_accesses : AccessProperty @ModesKnown :=
  { sequential_modesKnown with
    readRegister := fun _ => .one (fun _ => rfl) fun c => getMode_lt c.reg
    readCpsr := .one (fun _ => rfl) fun _ => show (0 : BitVec 8).toNat < 32 by decide
    writeRegister := fun _ _ => .one (fun _ => rfl) fun _ => getMode_lt _
    fetch := fun _ c => by
      refine List.forall_mem_cons.mpr ⟨getMode_lt _, List.forall_mem_cons.mpr ⟨trivial, ?_⟩⟩
      exact List.forall_mem_singleton.mpr (getMode_lt _)
    readByte := fun _ _ => .one (fun _ => rfl) fun _ => trivial
    readWord := fun _ _ => .one (fun _ => rfl) fun _ => trivial
    writeByte := fun _ _ => .one (fun _ => rfl) fun _ => trivial
    writeWord := fun _ _ => .one (fun _ => rfl) fun _ => trivial
    exception := fun exception => by
      have hemit : ModesKnown (emit (.exception exception) : ArmM Unit) :=
        .one (fun _ => rfl) fun _ => trivial
      have hcpsr : ModesKnown (armWriteCpsr (0x1d3 ||| Exception_bit_9)) :=
        .one (fun _ => rfl) fun _ => show (0 : BitVec 8).toNat < 32 by decide
      have husr : ModesKnown (armWriteUsrRegister 15 0) :=
        .one (fun _ => rfl) fun _ => show USR.toNat < 32 by decide
      exact sequential_modesKnown.bind hemit fun _ => sequential_modesKnown.ite
        (sequential_modesKnown.bind hcpsr fun _ => husr) (sequential_modesKnown.pure ()) }

/-- The listed accesses have names in the tables, and the modes are known. -/
theorem printable_of_tells {α : Type} {m : ArmM α} {c : ArmCore} {t : TracedText}
    (htells : Tells m c t) (htabled : t.Tabled) (hmodes : ModesKnown m) :
    ∀ e ∈ (m c).events, e.Printable := by
  intro e he
  have hname {k : Mark} (hk : e.mark? = some k) : k.tabled := by
    refine htabled k ?_
    rw [← htells]
    exact List.mem_filterMap.mpr ⟨e, he, hk⟩
  cases e with
  | register => exact ⟨hname rfl, hmodes c _ he⟩
  | memory => exact hname rfl
  | exception => trivial

theorem calls_printable (h : Host) (actions : List Action) (c : ArmCore) :
    ∀ e ∈ (calls h actions c).events, e.Printable := by
  induction actions generalizing c with
  | nil => exact List.forall_mem_nil _
  | cons a actions ih =>
      refine List.forall_mem_append.mpr ⟨?_, ih _⟩
      cases a with
      | step u =>
          have hevents : ((Action.step u).call h c).events = (armStep h u c).events :=
            List.append_nil _
          rw [hevents]
          exact printable_of_tells (Tells.armStep c h u) (.armStep h u c)
            (modesKnown_accesses.armStep h u)
      | irq exception =>
          exact printable_of_tells (Tells.armException c exception) (.armException exception)
            (modesKnown_accesses.exception exception)

end

/-! ## The text -/

section

variable {f : TraceFormat} {es : List Event} {s : Tracer}

theorem modeName_isSome {mode : BitVec 8} (h : mode.toNat < 32) :
    ∃ name, modeName mode = some name := by
  have hall : ∀ m : Fin 32, (modeName (BitVec.ofNat 8 m)).isSome := by decide +kernel
  have hcase := hall ⟨mode.toNat, h⟩
  rw [BitVec.ofNat_toNat, BitVec.setWidth_eq] at hcase
  exact Option.isSome_iff_exists.mp hcase

theorem armGetRegisterName_isSome {reg : Nat} (h : reg < 18) :
    ∃ name, armGetRegisterName reg = some name :=
  ⟨_, List.getElem?_eq_getElem h⟩

theorem traceRegisterText_isSome {cycle value : BitVec 32} {type : Access} {reg : Nat}
    {mode : BitVec 8} (h : reg < 18 ∧ mode.toNat < 32) :
    ∃ printed, traceRegisterText f cycle type reg mode value s = some printed := by
  obtain ⟨name, hname⟩ := armGetRegisterName_isSome h.1
  obtain ⟨suffix, hsuffix⟩ := modeName_isSome h.2
  unfold traceRegisterText
  split
  · rw [hname, hsuffix]
    exact ⟨_, rfl⟩
  · exact ⟨_, rfl⟩

theorem eventText_isSome {e : Event} (h : e.Printable) : ∃ printed, e.text f s = some printed := by
  cases e with
  | memory => exact ⟨_, rfl⟩
  | register cycle type reg mode value =>
      obtain ⟨printed, hprinted⟩ : ∃ printed,
          traceRegisterText f cycle type reg mode value s = some printed :=
        traceRegisterText_isSome h
      exact ⟨(printed, s.next), by rw [Event.text, hprinted]; rfl⟩
  | exception => exact ⟨_, rfl⟩

theorem traceText_cons {e : Event} {printed rest : List Byte} {s' : Tracer}
    (he : e.text f s = some (printed, s')) (hrest : traceText f es s' = some rest) :
    traceText f (e :: es) s = some (printed ++ rest) := by
  rw [traceText, he]
  exact congrArg (Option.bind · _) hrest

theorem traceText_isSome (h : ∀ e ∈ es, e.Printable) :
    ∃ printed, traceText f es s = some printed := by
  induction es generalizing s with
  | nil => exact ⟨_, rfl⟩
  | cons e es ih =>
      obtain ⟨he, hes⟩ := List.forall_mem_cons.mp h
      obtain ⟨⟨printed, s'⟩, hprinted⟩ := eventText_isSome (f := f) (s := s) he
      obtain ⟨rest, hrest⟩ := ih hes (s := s')
      exact ⟨_, traceText_cons hprinted hrest⟩

/-- The printed calls; `last` is the address of the access before. -/
def traceLines : BitVec 32 → List Event → List TraceLine
  | _, [] => []
  | last, .memory cycle type size cause address value :: es =>
    .memory ⟨address == last + 4, cycle, type, size, cause, address, value⟩ ::
      traceLines address es
  | last, .register cycle type reg mode value :: es =>
    .register ⟨cycle, type, reg, mode, value⟩ :: traceLines last es
  | last, .exception _ :: es => traceLines last es

theorem traceLines_printable (h : ∀ e ∈ es, e.Printable) (last : BitVec 32) :
    ∀ l ∈ traceLines last es, l.Printable := by
  induction es generalizing last with
  | nil => exact List.forall_mem_nil _
  | cons e es ih =>
      obtain ⟨he, hes⟩ := List.forall_mem_cons.mp h
      cases e with
      | memory => exact List.forall_mem_cons.mpr ⟨he, ih hes _⟩
      | register => exact List.forall_mem_cons.mpr ⟨he, ih hes _⟩
      | exception => exact ih hes _

/-- Everything but positions is printed. -/
structure Tracer.Full (f : TraceFormat) (s : Tracer) : Prop where
  memory : s.prints MEMORY = true
  registers : s.prints REGISTERS = true
  position : f = .plain → s.prints POSITION = false

theorem Tracer.next_prints (s : Tracer) (flag : BitVec 32) :
    s.next.prints flag = s.prints flag := by
  unfold next
  split <;> rfl

theorem Tracer.next_lastAddress (s : Tracer) : s.next.lastAddress = s.lastAddress := by
  unfold next
  split <;> rfl

theorem Tracer.Full.next (h : s.Full f) : s.next.Full f where
  memory := (s.next_prints MEMORY).trans h.memory
  registers := (s.next_prints REGISTERS).trans h.registers
  position hf := (s.next_prints POSITION).trans (h.position hf)

theorem Tracer.Full.location (h : s.Full f) : f.location s = [] := by
  cases f with
  | arm => rfl
  | plain =>
      show tracePrintLocation s = []
      rw [tracePrintLocation, h.position rfl]
      rfl

theorem traceText_eq (hs : s.Full f) (h : ∀ e ∈ es, e.Printable) :
    traceText f es s = some ((traceLines s.lastAddress es).flatMap (TraceLine.text f)) := by
  induction es generalizing s with
  | nil => rfl
  | cons e es ih =>
      obtain ⟨he, hes⟩ := List.forall_mem_cons.mp h
      have hlocation := hs.location
      cases e with
      | memory cycle type size cause address value =>
          have hprinted : (Event.memory cycle type size cause address value).text f s
              = some (memoryLine f (address == s.lastAddress + 4) cycle type size cause address
                value, { s.next with lastAddress := address }) := by
            rw [Event.text, traceMemoryText, if_pos hs.memory, hlocation]
            rfl
          have hnext : Tracer.Full f { s.next with lastAddress := address } :=
            ⟨hs.next.memory, hs.next.registers, hs.next.position⟩
          exact traceText_cons hprinted (ih hnext hes)
      | register cycle type reg mode value =>
          obtain ⟨name, hname⟩ := armGetRegisterName_isSome he.1
          obtain ⟨suffix, hsuffix⟩ := modeName_isSome he.2
          have hprinted : (Event.register cycle type reg mode value).text f s
              = some (registerLine f cycle type (registerName reg mode) value, s.next) := by
            rw [Event.text, traceRegisterText, if_pos hs.registers, hname, hsuffix, registerName,
              hname, hsuffix]
            show some (_ ++ _, _) = some _
            rw [hlocation]
            rfl
          have hrest := ih hs.next hes
          rw [s.next_lastAddress] at hrest
          exact traceText_cons hprinted hrest
      | exception irq =>
          have hprinted : (Event.exception irq).text f s = some ([], s) := rfl
          exact traceText_cons hprinted (ih hs hes)

/-- What both formats tell of a call. -/
def Event.told? : Event → Option ToldCall
  | .memory _ type size cause address value => some (.memory type size cause address value)
  | .register _ type reg _ value => some (.register type reg value)
  | .exception _ => none

theorem traceLines_told (last : BitVec 32) :
    (traceLines last es).map TraceLine.told = es.filterMap Event.told? := by
  induction es generalizing last with
  | nil => rfl
  | cons e es ih =>
      cases e with
      | memory => exact congrArg _ (ih _)
      | register => exact congrArg _ (ih _)
      | exception => exact ih _

/-- A call that tells the same. -/
def ToldCall.event : ToldCall → Event
  | .memory type size cause address value => .memory 0 type size cause address value
  | .register type reg value => .register 0 type reg 0 value

/-- What is told of the calls decides what becomes of the machine. -/
theorem replay_told (es : List Event) (t : Traced) :
    tracing.replay es t = tracing.replay ((es.filterMap Event.told?).map ToldCall.event) t := by
  induction es generalizing t with
  | nil => rfl
  | cons e es ih =>
      cases e with
      | memory cycle type =>
          cases type with
          | write => exact ih _
          | read => exact ih _
      | register cycle type =>
          cases type with
          | write => exact ih _
          | read => exact ih _
      | exception => exact ih _

/-- Texts of one trace tell the same of the calls. -/
theorem told_of_text {es' : List Event} (hs : s.Full f) (h : ∀ e ∈ es, e.Printable)
    (h' : ∀ e ∈ es', e.Printable) (htext : traceText f es s = traceText f es' s) :
    es.filterMap Event.told? = es'.filterMap Event.told? := by
  rw [traceText_eq hs h, traceText_eq hs h', Option.some.injEq] at htext
  have hne : ∀ l : TraceLine, l.Printable → l.text f ≠ [] := by
    intro l _
    cases l <;> cases f <;> exact List.cons_ne_nil _ _
  have hlines := (reads_line f).flatMap hne (traceLines_printable h _)
    (traceLines_printable h' _) htext
  rwa [traceLines_told, traceLines_told] at hlines

end

/-! ## The laws -/

/-- What is told of a run decides where it ends. -/
theorem traced_of_told {h h' : Host} {actions actions' : List Action} {c c' : ArmCore}
    (hstart : c.traced = c'.traced)
    (htold : (calls h actions c).events.filterMap Event.told?
      = (calls h' actions' c').events.filterMap Event.told?) :
    (run h actions c).traced = (run h' actions' c').traced :=
  calc (run h actions c).traced
      = tracing.replay (calls h actions c).events c.traced := by
        rw [(traces_accesses.calls h actions c).replay, calls_state]
    _ = tracing.replay (calls h' actions' c').events c'.traced := by
        rw [replay_told, htold, ← replay_told, hstart]
    _ = (run h' actions' c').traced := by
        rw [(traces_accesses.calls h' actions' c').replay, calls_state]

/-- **A run is printed without leaving a table or a buffer.** Whatever program runs, and whichever
exceptions are raised, each traced access has a register or a mode that `arm_constants.c` has a
name for, and the name fits. -/
theorem traceText_printed (f : TraceFormat) (s : Tracer) (h : Host) (actions : List Action)
    (c : ArmCore) : ∃ printed, traceText f (calls h actions c).events s = some printed :=
  traceText_isSome (calls_printable h actions c)

/-- **The text determines the run.** Runs with the same text make the same accesses, and leave the
same memory and the same r0 to r14. -/
theorem traceText_determines (f : TraceFormat) (s : Tracer) (hs : s.Full f) (h h' : Host)
    (actions actions' : List Action) (c c' : ArmCore) (hstart : c.traced = c'.traced)
    (htext : traceText f (calls h actions c).events s
      = traceText f (calls h' actions' c').events s) :
    (calls h actions c).events.filterMap Event.told?
        = (calls h' actions' c').events.filterMap Event.told? ∧
      (run h actions c).traced = (run h' actions' c').traced := by
  have htold := told_of_text hs (calls_printable h actions c) (calls_printable h' actions' c') htext
  exact ⟨htold, traced_of_told hstart htold⟩

/-- `MOV r0, #1` at the reset vector, after some cycles. -/
def movCore (cycleCount : BitVec 32) : ArmCore :=
  { armCreate (memoryCreate (some fun i => [0x01, 0x00, 0xa0, 0xe3].getD i 0) 16 0) (fun _ => 0) 0
    with cycleCount := cycleCount }

/-- Other locals at another time, and an interrupt that is ignored. -/
theorem traceText_determines_mov :
    (calls .masked [.step ⟨0, 0, 0, 0, 0, 0⟩] (movCore 0)).events.filterMap Event.told?
        = (calls .masked [.step ⟨7, 1, 5, 9, 0, 0⟩, .irq 6] (movCore 7)).events.filterMap
          Event.told? ∧
      (run .masked [.step ⟨0, 0, 0, 0, 0, 0⟩] (movCore 0)).traced
        = (run .masked [.step ⟨7, 1, 5, 9, 0, 0⟩, .irq 6] (movCore 7)).traced :=
  traceText_determines .arm ⟨0, true, fun _ => none, 3⟩ ⟨by decide, by decide, nofun⟩ .masked
    .masked [.step ⟨0, 0, 0, 0, 0, 0⟩] [.step ⟨7, 1, 5, 9, 0, 0⟩, .irq 6] (movCore 0) (movCore 7)
    rfl (by decide +kernel)

end Armator
