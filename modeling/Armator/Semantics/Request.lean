import Armator.Semantics.Command

set_option autoImplicit false

/-! # What a packet is answered with

A packet with the right checksum is acknowledged and dispatched on its first character, with
what follows as a string. Whatever the command, the stub replies once, or not at all, or stops
(`dispatch_answer`).
-/

namespace Armator

open Logged CString

/-! ## The text of a request -/

/-- The characters at `yytext` for the payload `p` and the checksum digits `ds`. -/
def requestBlock (p ds behind : List Byte) : List Byte :=
  chr '$' :: p ++ (chr '#' :: ds ++ 0 :: behind)

/-- The characters behind the command, once the '#' is a NUL. -/
def argument (p ds behind : List Byte) : List Byte := (p ++ (0 :: ds ++ 0 :: behind)).tail

theorem argument_eq {p : List Byte} (hp : p ≠ []) (ds behind : List Byte) :
    argument p ds behind = p.tail ++ 0 :: (ds ++ 0 :: behind) := by
  obtain ⟨c, p, rfl⟩ := List.exists_cons_of_ne_nil hp
  rfl

/-- The digits denote the checksum of the payload. -/
def GoodChecksum (p ds : List Byte) : Prop := valueIn 16 ds = (checksum p).toNat

instance (p ds : List Byte) : Decidable (GoodChecksum p ds) := inferInstanceAs (Decidable (_ = _))

section

variable {p ds : List Byte} (behind : List Byte)

theorem scanNumber_given (hhex : IsHex ds) (hds : ds ≠ []) :
    scanNumber (cstring ((requestBlock p ds behind).drop (p.length + 1 + 1)))
      = some (toUnsigned false (valueIn 16 ds), []) := by
  have hdrop : (requestBlock p ds behind).drop (p.length + 1 + 1) = ds ++ 0 :: behind := by
    have hsplit : requestBlock p ds behind = (chr '$' :: p ++ [chr '#']) ++ (ds ++ 0 :: behind) := by
      simp [requestBlock]
    have hlength : p.length + 1 + 1 = (chr '$' :: p ++ [chr '#']).length := by simp
    rw [hsplit, hlength, List.drop_left]
  have hscan : scanNumber ds = some (toUnsigned false (valueIn 16 ds), []) := by
    rw [← scanNumber_digits hhex hds (fun b hb => by cases hb), List.append_nil]
  rw [hdrop, cstring_append (isHex_nul hhex), hscan]

theorem checksum_eq_iff (hhex : IsHex ds) (hlength : ds.length = 2) :
    (checksum p).setWidth 32 = toUnsigned false (valueIn 16 ds) ↔ GoodChecksum p ds := by
  have hlt : valueIn 16 ds < 16 ^ 2 := by
    have hvalue := valueIn_lt hhex
    rwa [hlength] at hvalue
  have hsum : (checksum p).toNat < 256 := (checksum p).isLt
  rw [← BitVec.toNat_inj, toUnsigned_of_lt (lt_of_lt_of_le hlt (by decide)), BitVec.toNat_setWidth,
    Nat.mod_eq_of_lt (by omega), GoodChecksum, eq_comm]

/-- A packet is dispatched, or its retransmission is required. -/
theorem gdbPacketAnalysis_eq (cfg : GdbConfig) (u : GdbLocals) (hhex : IsHex ds)
    (hlength : ds.length = 2) :
    gdbPacketAnalysis cfg u (requestBlock p ds behind) (p.length + 4)
      = if GoodChecksum p ds then do
          gdbSendAck
          dispatch cfg u (p.headD 0) (argument p ds behind)
        else gdbRequireRetransmission := by
  have hds : ds ≠ [] := by
    rintro rfl
    cases hlength
  have hi : max 1 (p.length + 4 - 3) = p.length + 1 := by omega
  have hbody : ((requestBlock p ds behind).take (p.length + 1)).drop 1 = p := by
    have htake : (requestBlock p ds behind).take (p.length + 1) = chr '$' :: p := by
      rw [requestBlock, List.cons_append, List.take_succ_cons, List.take_left]
    rw [htake, List.drop_succ_cons, List.drop_zero]
  have hset : (requestBlock p ds behind).set (p.length + 1) 0
      = chr '$' :: (p ++ (0 :: ds ++ 0 :: behind)) := by
    rw [requestBlock, List.cons_append, List.set_cons_succ, List.set_append_right _ _ (Nat.le_refl _),
      Nat.sub_self]
    rfl
  have hindex : (chr '$' :: (p ++ (0 :: ds ++ 0 :: behind))).getD 1 0 = p.headD 0 := by
    cases p <;> rfl
  have hdata : (chr '$' :: (p ++ (0 :: ds ++ 0 :: behind))).drop 2 = argument p ds behind := by
    cases p <;> rfl
  unfold gdbPacketAnalysis
  rw [hi]
  dsimp only
  rw [hbody, scanNumber_given behind hhex hds, hset, hindex, hdata]
  exact if_congr (checksum_eq_iff hhex hlength) rfl rfl

/-- A packet with the right checksum is acknowledged and dispatched. -/
theorem gdbPacketAnalysis_good (cfg : GdbConfig) (u : GdbLocals) (hhex : IsHex ds)
    (hlength : ds.length = 2) (hgood : GoodChecksum p ds) :
    gdbPacketAnalysis cfg u (requestBlock p ds behind) (p.length + 4) = (do
      gdbSendAck
      dispatch cfg u (p.headD 0) (argument p ds behind)) := by
  rw [gdbPacketAnalysis_eq behind cfg u hhex hlength, if_pos hgood]

/-- The acknowledgement leaves the stub to the command. -/
theorem gdbPacketAnalysis_state (cfg : GdbConfig) (u : GdbLocals) (g : Gdb) (hhex : IsHex ds)
    (hlength : ds.length = 2) (hgood : GoodChecksum p ds) :
    (gdbPacketAnalysis cfg u (requestBlock p ds behind) (p.length + 4) g).state
      = (dispatch cfg u (p.headD 0) (argument p ds behind) g).state := by
  rw [gdbPacketAnalysis_good behind cfg u hhex hlength hgood]
  rfl

end

/-! ## Answers -/

/-- Neither sent nor stored into `gdb->packet`. -/
def GdbEvent.quiet : GdbEvent → Bool
  | .send _ => false
  | .store .. => false
  | _ => true

def Silent (es : List GdbEvent) : Prop := ∀ e ∈ es, e.quiet = true

/-- What a program does of a handler's kind: it replies once with the texts `ts`, or sends
nothing and leaves the reply buffer. `bound` limits the payload. -/
inductive Answer (g : Gdb) (m : GdbM Unit) (bound : Nat → Prop) : Prop
  | reply (c : ArmCore) (exception : Int) (ts : List (List Byte)) (es : List GdbEvent)
      (silent : Silent es) (bounded : bound ts.flatten.length)
      (runs : Runs shown m g (.ok ())
        (((g.withArm c).withException exception).replied ts.flatten) (es ++ replyEvents ts))
  | nothing (es : List GdbEvent) (silent : Silent es) (runs : Runs shown m g (.ok ()) g es)
  | fault (fault : Fault) (c : ArmCore) (exception : Int) (es : List GdbEvent)
      (silent : Silent es)
      (runs : Runs shown m g (.error fault) ((g.withArm c).withException exception) es)

section

variable {es es' : List GdbEvent}

theorem silent_nil : Silent [] := fun _ he => by cases he

theorem Silent.cons {e : GdbEvent} (he : e.quiet = true) (h : Silent es) : Silent (e :: es) :=
  List.forall_mem_cons.mpr ⟨he, h⟩

theorem Silent.append (h : Silent es) (h' : Silent es') : Silent (es ++ es') :=
  List.forall_mem_append.mpr ⟨h, h'⟩

theorem silent_ite {c : Prop} [Decidable c] (h : Silent es) (h' : Silent es') :
    Silent (if c then es else es') := by
  split <;> assumption

theorem silent_arm (es : List Event) : Silent (es.map .arm) := by
  intro e he
  obtain ⟨a, -, rfl⟩ := List.mem_map.mp he
  rfl

theorem Silent.sends (h : Silent es) : Armator.sends es = [] := by
  rw [Armator.sends, List.filterMap_eq_nil_iff]
  intro e he
  have hquiet := h e he
  cases e <;> first | rfl | cases hquiet

end

section

variable (data : List Byte)

theorem silent_scanEvents (o : Nat) : Silent (scanEvents data o) :=
  Silent.cons rfl (silent_ite silent_nil (Silent.cons rfl silent_nil))

theorem silent_scansEvents (n o : Nat) : Silent (scansEvents data n o) := by
  induction n generalizing o with
  | zero => exact silent_nil
  | succ n ih => exact (silent_scanEvents data o).append (ih _)

theorem silent_givenEvents : Silent (givenEvents data) :=
  Silent.cons rfl (silent_ite silent_nil (Silent.cons rfl silent_nil))

theorem silent_afterEvents (c : Byte) : Silent (afterEvents data c) :=
  silent_ite silent_nil (Silent.cons rfl silent_nil)

theorem silent_rangeEvents : Silent (rangeEvents data) :=
  Silent.append (Silent.cons rfl silent_nil) (silent_ite silent_nil (Silent.cons rfl silent_nil))

theorem silent_contentEvents (n o : Nat) : Silent (contentEvents data n o) := by
  induction n generalizing o with
  | zero => exact silent_nil
  | succ n ih =>
      exact ((Silent.cons rfl silent_nil).append
        (silent_ite (Silent.cons rfl silent_nil) silent_nil)).append (ih _)

end

theorem generalText_length (cfg : GdbConfig) (c : ArmCore) : (generalText cfg c).length = 336 := by
  have hlow : ((List.range 15).flatMap fun i => wordText cfg (c.regValue i)).length = 8 * 15 := by
    rw [slots_length fun i _ => wordText_length cfg _, List.length_range]
  have hunavailable : (List.replicate ((8 * 3 + 1) * 8) (chr 'x')).length = (8 * 3 + 1) * 8 :=
    List.length_replicate
  calc (generalText cfg c).length = 8 * 15 + (8 + ((8 * 3 + 1) * 8 + 8)) := by
        rw [generalText, List.length_append, List.length_append, List.length_append, hlow,
          wordText_length, wordText_length, hunavailable]
    _ = 336 := rfl

/-- The longest payload of a command other than `m`: the register dump. -/
def longestReply : Nat := 336

section

variable (cfg : GdbConfig) (u : GdbLocals) (g : Gdb)

/-- A reply built in several texts that leaves the machine. -/
theorem Answer.ofTexts {g : Gdb} {m : GdbM Unit} {bound : Nat → Prop} {ts : List (List Byte)}
    {t : List Byte} {es : List GdbEvent} (hts : ts.flatten = t) (silent : Silent es)
    (bounded : bound t.length)
    (runs : Runs shown m g (.ok ()) (g.replied t) (es ++ replyEvents ts)) : Answer g m bound := by
  subst hts
  exact .reply g.arm g.targetException ts es silent bounded runs

/-- A reply sent by `gdb_send_data`. -/
theorem Answer.ofData {g : Gdb} {m : GdbM Unit} {bound : Nat → Prop} {t : List Byte}
    {es : List GdbEvent} (c : ArmCore) (exception : Int) (silent : Silent es)
    (bounded : bound t.length)
    (runs : Runs shown m g (.ok ()) (((g.withArm c).withException exception).replied t)
      (es ++ replyEvents [t])) : Answer g m bound := by
  have hflat : [t].flatten = t := List.flatten_singleton
  refine .reply c exception [t] es silent ?_ ?_
  · rw [hflat]
    exact bounded
  · rw [hflat]
    exact runs

theorem stopReason_length (exception : Int) : (stopReason exception).length ≤ longestReply := by
  unfold stopReason
  split
  · decide
  · split <;> decide

theorem queryAnswer_length (s : List Byte) : (queryAnswer s).length ≤ longestReply := by
  unfold queryAnswer
  split
  · decide
  · split
    · decide
    · split <;> decide

theorem threadAnswer_length (data : List Byte) : (threadAnswer data).length ≤ longestReply := by
  unfold threadAnswer
  split <;> decide

theorem writeMemoryBinary_answer (data : List Byte) :
    Answer g (writeMemoryBinary u data) fun n => n ≤ longestReply := by
  have hstart : Silent (rangeEvents data ++ afterEvents data (chr ':')) :=
    (silent_rangeEvents data).append (silent_afterEvents data _)
  by_cases haddress : (givenRange u data).1.toNat < g.mem.size
  · cases hafter : afterChar data (chr ':') with
    | none =>
        rcases writeMemoryBinary_absent u data g haddress hafter with ⟨-, hrun⟩ | hrun
        · rw [← List.append_assoc] at hrun
          exact .ofTexts List.flatten_singleton hstart (by decide) hrun
        · exact .fault .invalidPointer g.arm g.targetException _ hstart hrun
    | some o =>
        have hrun := writeMemoryBinary_runs u data g haddress hafter
        rw [← List.append_assoc, ← List.append_assoc] at hrun
        exact .ofData { g.arm with mem := _ } g.targetException
          (hstart.append (silent_contentEvents data _ o)) (by decide) hrun
  · have hrun := writeMemoryBinary_refused u data g haddress
    rw [← List.append_assoc] at hrun
    exact .ofTexts List.flatten_singleton hstart (by decide) hrun

/-- `P` replies OK, or faults. -/
theorem writeRegisterHandler_cases (data : List Byte) :
    (∃ c es, Silent es ∧ Runs shown (writeRegisterHandler cfg u data) g (.ok ())
      ((g.withArm c).replied (text ['O', 'K'])) (es ++ replyEvents [text ['O', 'K']])) ∨
    ∃ fault es, Silent es ∧ Runs shown (writeRegisterHandler cfg u data) g (.error fault) g es := by
  have hstart : Silent (givenEvents data ++ afterEvents data (chr '=')) :=
    (silent_givenEvents data).append (silent_afterEvents data _)
  cases hafter : afterChar data (chr '=') with
  | none => exact .inr ⟨_, _, hstart, writeRegisterHandler_absent cfg u data g hafter⟩
  | some o =>
      have hscan := hstart.append (silent_scansEvents data 4 o)
      by_cases hreg : givenReg u data < 16
      · have hrun := writeRegisterHandler_runs cfg u data g hafter hreg
        rw [← List.append_assoc, ← List.append_assoc] at hrun
        exact .inl ⟨_, _, hscan, hrun⟩
      · have hrun := writeRegisterHandler_fault cfg u data g hafter hreg
        rw [← List.append_assoc] at hrun
        exact .inr ⟨_, _, hscan, hrun⟩

theorem writeRegisterHandler_answer (data : List Byte) :
    Answer g (writeRegisterHandler cfg u data) fun n => n ≤ longestReply := by
  rcases writeRegisterHandler_cases cfg u g data with ⟨c, es, hes, hrun⟩ | ⟨fault, es, hes, hrun⟩
  · exact .ofData c g.targetException hes (by decide) hrun
  · exact .fault fault g.arm g.targetException es hes hrun

theorem Answer.mono {g : Gdb} {m : GdbM Unit} {bound bound' : Nat → Prop}
    (h : Answer g m bound) (himp : ∀ n, bound n → bound' n) : Answer g m bound' := by
  cases h with
  | reply c exception ts es silent bounded runs =>
      exact .reply c exception ts es silent (himp _ bounded) runs
  | nothing es silent runs => exact .nothing es silent runs
  | fault f c exception es silent runs => exact .fault f c exception es silent runs

/-- **Every command replies once, or sends nothing.** -/
theorem run_answer (data : List Byte) (command : Command) :
    Answer g (command.run cfg u data)
      fun n => command = .readMemory ∨ n ≤ longestReply := by
  cases command with
  | cont =>
      obtain ⟨r, c, exception, es, -, ⟨-, hrun⟩ | ⟨-, hrun⟩⟩ := cont_runs cfg u g
      · exact .ofData c exception (silent_arm es) (.inr (stopReason_length _)) hrun
      · exact .fault .outOfFuel c exception _ (silent_arm es) hrun
  | killRequest => exact .nothing _ (Silent.cons rfl silent_nil) (gdbEmit_runs g rfl)
  | query =>
      exact .ofTexts List.flatten_singleton (Silent.cons rfl silent_nil)
        (.inr (queryAnswer_length _)) (query_runs data g)
  | readGeneralRegisters =>
      refine .ofTexts (generalTexts_flatten cfg g.arm) silent_nil (.inr ?_)
        (readGeneralRegisters_runs cfg g)
      rw [generalText_length]
      exact Nat.le_refl _
  | readMemory =>
      exact .ofTexts (dumpTexts_flatten u data g.mem) (silent_rangeEvents data) (.inl rfl)
        (readMemory_runs u data g)
  | readRegister =>
      by_cases hreg : atoi (cstring data) < 16
      · refine .ofTexts (wordTexts_flatten cfg _) (Silent.cons rfl silent_nil) (.inr ?_)
          (readRegisterHandler_runs cfg data g hreg)
        rw [wordText_length]
        decide
      · exact .fault .assertion g.arm g.targetException _ (Silent.cons rfl silent_nil)
          (readRegisterHandler_fault cfg data g hreg)
  | reason =>
      exact .ofTexts List.flatten_singleton silent_nil (.inr (stopReason_length _))
        (gdbSendStopReason_runs g)
  | setThread =>
      exact .ofTexts List.flatten_singleton (Silent.cons rfl (Silent.cons rfl silent_nil))
        (.inr (threadAnswer_length data)) (setThread_runs data g)
  | step =>
      exact .ofData (stepState cfg.host (u.steps 0) g.arm) 0 (silent_arm _)
        (.inr (stopReason_length 0)) (step_runs cfg u g)
  | writeGeneralRegisters =>
      have hrun := writeGeneralRegisters_runs cfg u data g
      have hsilent := silent_scansEvents data 168 0
      -- neither the loads nor the registers matter here
      generalize scansEvents data 168 0 = es at hrun hsilent
      generalize g.arm.generalRestored cfg u data = c at hrun
      exact .ofData c g.targetException hsilent (.inr (by decide)) hrun
  | writeMemoryBinary => exact (writeMemoryBinary_answer u g data).mono fun _ => .inr
  | writeRegister => exact (writeRegisterHandler_answer cfg u g data).mono fun _ => .inr

theorem dispatch_answer (index : Byte) (data : List Byte) :
    Answer g (dispatch cfg u index data)
      fun n => handler index = some .readMemory ∨ n ≤ longestReply := by
  unfold dispatch
  cases hhandler : handler index with
  | none =>
      exact .ofTexts List.flatten_singleton silent_nil (.inr (by decide))
        (gdbSendData_runs g (by simp))
  | some command =>
      refine (run_answer cfg u g data command).mono fun n hn => ?_
      exact hn.imp_left (congrArg some)

end

end Armator
