import Armator.Semantics.Handlers
import Armator.Semantics.Session

set_option autoImplicit false

/-! # The error buffer of the scanner

What the scanner does not recognise is collected, up to 1023 characters and their NUL, and each
full or ended collection asks for a retransmission (`errorBufferLaw`). A newline outside a packet
falls to the default rule: it is no error, and ends none.
-/

namespace Armator

open Logged CString

/-! ## Runs of errors -/

/-- A rule of the scanner other than `.` matched. -/
def ScannerToken.recognised : ScannerToken → Bool
  | .ack | .retransmission | .packet _ => true
  | .char _ | .echo _ => false

/-- A character that no rule recognises, other than a newline. -/
def ScannerToken.isError : ScannerToken → Bool
  | .char _ => true
  | _ => false

/-- What the action of a recognised token does behind its `handle_error`. -/
def ScannerToken.own (cfg : GdbConfig) (u : GdbLocals) (behind : List Byte) :
    ScannerToken → GdbM Unit
  | .retransmission => gdbTransmitPacket
  | .packet yytext => gdbPacketAnalysis cfg u (yytext ++ 0 :: behind) yytext.length
  | _ => return ()

/-- The length of a run. -/
def errorLength (arrivals : List Arrival) : Nat := arrivals.countP fun a => a.token.isError

/-- The quotient by 1023, rounded up. -/
def retransmissions (length : Nat) : Nat := (length + 1022) / 1023

/-- A run may start behind these. -/
def EndsRecognised (arrivals : List Arrival) : Prop :=
  ∀ a ∈ arrivals.getLast?, a.token.recognised = true

/-- A run ends in front of these, or with the input. -/
def StartsRecognised (arrivals : List Arrival) : Prop :=
  ∀ a ∈ arrivals.head?, a.token.recognised = true

/-- A store into the error buffer, or the request of a retransmission. -/
def GdbEvent.ofError : GdbEvent → Prop
  | .errorStore _ => True
  | .send bytes => bytes = [chr '-']
  | _ => False

/-- What is asked of the error buffer in the session that starts in `g`. -/
structure ErrorBufferLaw (cfg : GdbConfig) (g : Gdb) (arrivals : List Arrival) : Prop where
  stores : ∀ i, .errorStore i ∈ (yylex cfg arrivals g).events → i < MAX_ERROR_SIZE
  length : ∀ before len, before <+: arrivals → (actAll cfg before 0 g).value = .ok len →
    len ≤ 1023
  /-- Between the token before a run and the one behind it, only the errors are handled. -/
  run : ∀ before errors after, arrivals = before ++ (errors ++ after) → EndsRecognised before →
    (∀ a ∈ errors, a.token.recognised = false) → StartsRecognised after →
    ∀ len, (actAll cfg before 0 g).value = .ok len → ∃ es,
      (yylex cfg arrivals g).events = (actAll cfg before 0 g).events ++
        (es ++ (yylex cfg after (actAll cfg before 0 g).state).events) ∧
      sends es = List.replicate (retransmissions (errorLength errors)) [chr '-'] ∧
      ∀ e ∈ es, e.ofError
  /-- The token behind a run finds no error. -/
  next : ∀ a after, a.token.recognised = true →
    yylex cfg (a :: after) g = (do
      a.token.own cfg a.locals a.behind
      yylex cfg after : GdbM Unit) g

/-- What is asked of the tokens of an input. -/
structure TokenLaw (input : List Byte) : Prop where
  texts : ((scannerTokens input).map ScannerToken.text).flatten = input
  error : ∀ c, .char c ∈ scannerTokens input → c ≠ 10
  newline : ∀ c, .echo c ∈ scannerTokens input → c = 10

/-! ## Tokens -/

/-- No rule matches a newline. -/
theorem eq_newline {w : List Byte} (hw : w.length = 1)
    (h : Lexer.firstRule scannerRules w = none) : w = [10] := by
  obtain ⟨c, rfl⟩ := List.length_eq_one_iff.mp hw
  rw [Lexer.firstRule, List.findIdx?_eq_none_iff] at h
  have hchar := h matchesChar (by simp [scannerRules])
  simpa [matchesChar] using hchar

theorem tokenLaw (input : List Byte) : TokenLaw input := by
  have hfirst : ∀ t ∈ scannerTokens input, ∃ token : Lexer.Token Byte, t = ScannerToken.of token ∧
      Lexer.IsToken scannerRules token ∧ Lexer.firstRule scannerRules token.2 = token.1 := by
    intro t ht
    obtain ⟨token, hmem, rfl⟩ := List.mem_map.mp ht
    exact ⟨token, rfl, Lexer.tokenize_isToken scannerRules input token hmem,
      Lexer.tokenize_firstRule scannerRules input token hmem⟩
  refine ⟨?_, fun c hc => ?_, fun c hc => ?_⟩
  · rw [scannerTokens, texts_of (Lexer.tokenize_isToken scannerRules input),
      Lexer.tokenize_flatten]
  · obtain ⟨⟨rule, w⟩, heq, -, hrule⟩ := hfirst _ hc
    rcases rule with _ | _ | _ | _ | i
    · cases heq
    · cases heq
    · cases heq
    · cases heq
    · obtain ⟨hi, hw, -⟩ := List.findIdx?_eq_some_iff_getElem.mp hrule
      cases i with
      | zero =>
          have hmatch : matchesChar w = true := hw
          rw [matchesChar, Bool.and_eq_true, decide_eq_true_eq, decide_eq_true_eq] at hmatch
          obtain ⟨b, rfl⟩ := List.length_eq_one_iff.mp hmatch.1
          have hcb : c = b := ScannerToken.char.inj heq
          rw [hcb]
          exact fun hten => hmatch.2 (congrArg ([·]) hten)
      | succ i => exact absurd hi (Nat.not_lt.mpr (Nat.le_add_left 4 i))
  · obtain ⟨⟨rule, w⟩, heq, hone, hrule⟩ := hfirst _ hc
    rcases rule with _ | _ | _ | _ | i
    · have hw : w = [10] := eq_newline hone hrule
      rw [hw] at heq
      exact ScannerToken.echo.inj heq
    · cases heq
    · cases heq
    · cases heq
    · cases heq

/-! ## The bound -/

/-- `m` stores into the error buffer inside it, and leaves a length of at most `bound`. -/
structure InBuffer (bound : Nat) (m : GdbM Nat) : Prop where
  stores : ∀ g i, .errorStore i ∈ (m g).events → i < MAX_ERROR_SIZE
  length : ∀ g len, (m g).value = .ok len → len ≤ bound

/-- `m` does not touch the error buffer. -/
def NoError {α : Type} (m : GdbM α) : Prop := ∀ g i, .errorStore i ∉ (m g).events

theorem compositional_noError : Compositional @NoError := by
  refine ⟨fun a g i hmem => ?_, fun hm hf g i hmem => ?_⟩
  · cases hmem
  · rcases mem_events_bind hmem with hfirst | ⟨a, -, hsecond⟩
    · exact hm g i hfirst
    · exact hf a _ i hsecond

theorem noError_gdbEmit {e : GdbEvent} (he : ∀ i, e ≠ .errorStore i) : NoError (gdbEmit e) := by
  intro g i hmem
  exact he i (List.mem_singleton.mp hmem).symm

/-- No handler touches the error buffer. -/
theorem handlerProperty_noError : HandlerProperty @NoError :=
  { compositional_noError with
    emit := fun e he => noError_gdbEmit fun i heq => by
      rw [heq] at he
      cases he
    get := fun g i hmem => by cases hmem
    modify := fun f g i hmem => by cases hmem
    throw := fun fault g i hmem => by cases hmem
    arm := fun m g i hmem => by
      rw [liftArm_eq] at hmem
      obtain ⟨e, -, he⟩ := List.mem_map.mp hmem
      cases he
    disable := noError_gdbEmit fun i heq => by cases heq
    enable := noError_gdbEmit fun i heq => by cases heq }

section

variable {bound len : Nat}

theorem inBuffer_pure (hlen : len ≤ bound) : InBuffer bound (pure len) := by
  refine ⟨fun g i hmem => ?_, fun g len' hvalue => ?_⟩
  · cases hmem
  · cases hvalue
    exact hlen

theorem InBuffer.mono {bound' : Nat} {m : GdbM Nat} (h : InBuffer bound m)
    (hle : bound ≤ bound') : InBuffer bound' m :=
  ⟨h.stores, fun g len hlen => (h.length g len hlen).trans hle⟩

/-- A program that stores into the buffer inside it and returns values in `P`, in front of
others. -/
theorem InBuffer.sequence {α : Type} {P : α → Prop} {m : GdbM α} {f : α → GdbM Nat}
    (hstores : ∀ g i, .errorStore i ∈ (m g).events → i < MAX_ERROR_SIZE)
    (hvalues : ∀ g a, (m g).value = .ok a → P a) (hf : ∀ a, P a → InBuffer bound (f a)) :
    InBuffer bound (m >>= f) := by
  refine ⟨fun g i hmem => ?_, fun g len hvalue => ?_⟩
  · rcases mem_events_bind hmem with hfirst | ⟨a, ha, hsecond⟩
    · exact hstores g i hfirst
    · exact (hf a (hvalues g a ha)).stores _ i hsecond
  · obtain ⟨a, ha, hbind⟩ := bind_ok hvalue
    rw [hbind] at hvalue
    exact (hf a (hvalues g a ha)).length _ len hvalue

theorem InBuffer.bind {bound' : Nat} {m : GdbM Nat} {f : Nat → GdbM Nat} (hm : InBuffer bound m)
    (hf : ∀ len ≤ bound, InBuffer bound' (f len)) : InBuffer bound' (m >>= f) :=
  .sequence hm.stores hm.length hf

theorem InBuffer.behind {α : Type} {m : GdbM α} {f : α → GdbM Nat}
    (hm : ∀ g i, .errorStore i ∈ (m g).events → i < MAX_ERROR_SIZE)
    (hf : ∀ a, InBuffer bound (f a)) : InBuffer bound (m >>= f) :=
  .sequence (P := fun _ => True) hm (fun _ _ _ => trivial) fun a _ => hf a

theorem NoError.stores {α : Type} {m : GdbM α} (h : NoError m) (g : Gdb) (i : Nat)
    (hmem : .errorStore i ∈ (m g).events) : i < MAX_ERROR_SIZE := absurd hmem (h g i)

theorem errorStore_stores (hlen : len ≤ 1023) (g : Gdb) (i : Nat)
    (hmem : .errorStore i ∈ (gdbEmit (.errorStore len) g).events) : i < MAX_ERROR_SIZE := by
  cases List.mem_singleton.mp hmem
  exact Nat.lt_succ_of_le hlen

theorem noError_gdbRequireRetransmission : NoError gdbRequireRetransmission :=
  noError_gdbEmit fun i heq => by cases heq

/-- The NUL of a full error is the last character of the buffer. -/
theorem inBuffer_handleError (hlen : len ≤ 1023) : InBuffer 0 (handleError len) := by
  unfold handleError
  split
  · exact .behind (errorStore_stores hlen) fun _ =>
      .behind noError_gdbRequireRetransmission.stores fun _ => inBuffer_pure (Nat.le_refl 0)
  · exact inBuffer_pure (by omega)

/-- One character is left free for the NUL. -/
theorem inBuffer_addCharacterToError (hlen : len ≤ 1023) :
    InBuffer 1023 (addCharacterToError len) := by
  have hroom : InBuffer 1022 (if len > MAX_ERROR_SIZE - 2 then handleError len else pure len) := by
    split
    · exact (inBuffer_handleError hlen).mono (Nat.zero_le _)
    · simp only [MAX_ERROR_SIZE] at *
      exact inBuffer_pure (by omega)
  have hadd : addCharacterToError len
      = (if len > MAX_ERROR_SIZE - 2 then handleError len else pure len) >>= fun n =>
          gdbEmit (.errorStore n) >>= fun _ => pure (n + 1) := by
    unfold addCharacterToError
    split <;> rfl
  rw [hadd]
  exact hroom.bind fun n hn => .behind (errorStore_stores (Nat.le_succ_of_le hn)) fun _ =>
    inBuffer_pure (Nat.succ_le_succ hn)

theorem inBuffer_act (cfg : GdbConfig) (a : Arrival) (hlen : len ≤ 1023) :
    InBuffer 1023 (a.token.act cfg a.locals a.behind len) := by
  obtain ⟨t, u, behind⟩ := a
  have hhandled : ∀ n ≤ 0, InBuffer 1023 (pure n) := fun n hn =>
    inBuffer_pure (hn.trans (Nat.zero_le _))
  cases t with
  | ack => exact (inBuffer_handleError hlen).mono (Nat.zero_le _)
  | retransmission =>
      exact (inBuffer_handleError hlen).bind fun n hn =>
        .behind (NoError.stores handlerProperty_noError.gdbTransmitPacket) fun _ => hhandled n hn
  | packet yytext =>
      exact (inBuffer_handleError hlen).bind fun n hn =>
        .behind (NoError.stores (handlerProperty_noError.gdbPacketAnalysis cfg u _ _)) fun _ =>
          hhandled n hn
  | char c => exact inBuffer_addCharacterToError hlen
  | echo c => exact inBuffer_pure hlen

theorem inBuffer_actAll (cfg : GdbConfig) (arrivals : List Arrival) (hlen : len ≤ 1023) :
    InBuffer 1023 (actAll cfg arrivals len) := by
  induction arrivals generalizing len with
  | nil => exact inBuffer_pure hlen
  | cons a as ih => exact (inBuffer_act cfg a hlen).bind fun n hn => ih hn

end

/-! ## The count -/

/-- From a length `len`, `n` more characters of an error emit `es` and leave the length `len'`. -/
structure Collects (len n : Nat) (es : List GdbEvent) (len' : Nat) : Prop where
  bound : len' ≤ 1023
  pending : len' = 0 → len + n = 0
  asked : ∃ k, sends es = List.replicate k [chr '-'] ∧ len + n = 1023 * k + len'
  only : ∀ e ∈ es, e.ofError

section

variable {len len' len'' n n' : Nat} {es es' : List GdbEvent}

theorem collects_nil (hlen : len ≤ 1023) : Collects len 0 [] len :=
  ⟨hlen, fun hzero => hzero, ⟨0, rfl, by omega⟩, fun _ he => by cases he⟩

theorem Collects.append (h : Collects len n es len') (h' : Collects len' n' es' len'') :
    Collects len (n + n') (es ++ es') len'' := by
  obtain ⟨k, hk, hlength⟩ := h.asked
  obtain ⟨k', hk', hlength'⟩ := h'.asked
  refine ⟨h'.bound, fun hzero => ?_, ⟨k + k', ?_, ?_⟩, ?_⟩
  · have hnone := h'.pending hzero
    have hbefore := h.pending (by omega)
    omega
  · rw [sends_append, hk, hk', List.replicate_add]
  · rw [Nat.mul_add]
    omega
  · exact List.forall_mem_append.mpr ⟨h.only, h'.only⟩

/-- The end of a run asks for what is left. -/
theorem Collects.flush (h : Collects 0 n es len') :
    sends (es ++ flushEvents len') = List.replicate (retransmissions n) [chr '-'] ∧
      ∀ e ∈ es ++ flushEvents len', e.ofError := by
  obtain ⟨k, hk, hlength⟩ := h.asked
  have hbound := h.bound
  have hpending := h.pending
  rw [sends_append, hk, flushEvents, retransmissions]
  by_cases hlen : len' = 0
  · have hcount : (n + 1022) / 1023 = k := by omega
    rw [if_pos hlen, hcount, List.append_nil]
    exact ⟨List.append_nil _, h.only⟩
  · have hcount : (n + 1022) / 1023 = k + 1 := by omega
    rw [if_neg hlen, hcount, List.replicate_succ']
    refine ⟨rfl, List.forall_mem_append.mpr ⟨h.only, ?_⟩⟩
    exact List.forall_mem_cons.mpr ⟨trivial, List.forall_mem_singleton.mpr rfl⟩

/-- One more character. -/
theorem addCharacterToError_eq (hlen : len ≤ 1023) :
    ∃ es len', (∀ g, addCharacterToError len g = ⟨.ok len', g, es⟩) ∧ Collects len 1 es len' := by
  unfold addCharacterToError
  by_cases hfull : len > MAX_ERROR_SIZE - 2
  · have h1023 : len = 1023 := by
      simp only [MAX_ERROR_SIZE] at hfull
      omega
    subst h1023
    refine ⟨[.errorStore 1023, .send [chr '-'], .errorStore 0], 1, fun g => rfl, ?_⟩
    refine ⟨by decide, fun hzero => absurd hzero (by decide), ⟨1, rfl, rfl⟩, fun e he => ?_⟩
    rcases List.mem_cons.mp he with rfl | he
    · trivial
    · rcases List.mem_pair.mp he with rfl | rfl
      · rfl
      · trivial
  · rw [if_neg hfull]
    simp only [MAX_ERROR_SIZE] at hfull
    refine ⟨[.errorStore len], len + 1, fun g => rfl, ?_⟩
    refine ⟨by omega, fun hzero => absurd hzero (Nat.succ_ne_zero len), ⟨0, rfl, by omega⟩,
      fun e he => ?_⟩
    rw [List.mem_singleton.mp he]
    trivial

/-- The characters of a run are collected, and nothing else is done. -/
theorem actAll_errors (cfg : GdbConfig) {errors : List Arrival}
    (herrors : ∀ a ∈ errors, a.token.recognised = false) (hlen : len ≤ 1023) :
    ∃ es len', (∀ g, actAll cfg errors len g = ⟨.ok len', g, es⟩) ∧
      Collects len (errorLength errors) es len' := by
  induction errors generalizing len with
  | nil => exact ⟨[], len, fun g => rfl, collects_nil hlen⟩
  | cons a as ih =>
      obtain ⟨hfirst, hrest⟩ := List.forall_mem_cons.mp herrors
      obtain ⟨t, u, behind⟩ := a
      cases t with
      | ack => cases hfirst
      | retransmission => cases hfirst
      | packet yytext => cases hfirst
      | char c =>
          obtain ⟨es, len', hadd, hcollects⟩ := addCharacterToError_eq hlen
          obtain ⟨es', len'', hact, hcollects'⟩ := ih hrest hcollects.bound
          refine ⟨es ++ es', len'', fun g => ?_, ?_⟩
          · have hbind := bind_of_ok (f := actAll cfg as) (congrArg Outcome.value (hadd g))
            rw [hadd g] at hbind
            rw [hact g] at hbind
            exact hbind
          · have hcount : errorLength (⟨.char c, u, behind⟩ :: as) = 1 + errorLength as := by
              rw [errorLength, List.countP_cons_of_pos rfl, Nat.add_comm]
              rfl
            rw [hcount]
            exact hcollects.append hcollects'
      | echo c =>
          obtain ⟨es, len', hact, hcollects⟩ := ih hrest hlen
          have hcount : errorLength (⟨.echo c, u, behind⟩ :: as) = errorLength as := by
            rw [errorLength, List.countP_cons_of_neg Bool.false_ne_true]
            rfl
          rw [hcount]
          exact ⟨es, len', hact, hcollects⟩

end

/-! ## Sessions -/

/-- The end of the input, at a length `len`. -/
def endOfInput (len : Nat) : GdbM Unit := do
  let _len ← handleError len

section

variable (cfg : GdbConfig)

theorem yylex_eq (arrivals : List Arrival) :
    yylex cfg arrivals = actAll cfg arrivals 0 >>= endOfInput := rfl

theorem actAll_append (xs ys : List Arrival) (len : Nat) :
    actAll cfg (xs ++ ys) len = actAll cfg xs len >>= actAll cfg ys := by
  induction xs generalizing len with
  | nil => exact (LawfulMonad.pure_bind len (actAll cfg ys)).symm
  | cons a as ih =>
      calc actAll cfg (a :: as ++ ys) len
          = a.token.act cfg a.locals a.behind len >>= fun n => actAll cfg as n >>= actAll cfg ys :=
            congrArg (a.token.act cfg a.locals a.behind len >>= ·) (funext ih)
        _ = actAll cfg (a :: as) len >>= actAll cfg ys := (LawfulMonad.bind_assoc _ _ _).symm

/-- A recognised token handles the error first, and its own action behind that. -/
theorem act_recognised {a : Arrival} (ha : a.token.recognised = true) (len : Nat) :
    a.token.act cfg a.locals a.behind len = (do
      let len ← handleError len
      a.token.own cfg a.locals a.behind
      return len) := by
  obtain ⟨t, u, behind⟩ := a
  cases t with
  | ack => exact (bind_pure (handleError len)).symm
  | retransmission => rfl
  | packet yytext => rfl
  | char c => cases ha
  | echo c => cases ha

/-- Behind an error, a recognised token and what follows it. -/
theorem next_eq {a : Arrival} (ha : a.token.recognised = true) (as : List Arrival) (len : Nat)
    (g : Gdb) :
    let o := (a.token.own cfg a.locals a.behind >>= fun _ => yylex cfg as) g
    (actAll cfg (a :: as) len >>= endOfInput) g
      = ⟨o.value, o.state, flushEvents len ++ o.events⟩ := by
  intro o
  have hact : actAll cfg (a :: as) len >>= endOfInput = handleError len >>= fun n =>
      a.token.own cfg a.locals a.behind >>= fun _ => actAll cfg as n >>= endOfInput := by
    have hfirst : actAll cfg (a :: as) len
        = a.token.act cfg a.locals a.behind len >>= actAll cfg as := rfl
    rw [hfirst, act_recognised cfg ha]
    simp only [LawfulMonad.bind_assoc, LawfulMonad.pure_bind]
  have hzero : (handleError len g).value = .ok 0 := by rw [handleError_eq]
  rw [hact, bind_of_ok hzero, handleError_eq]
  rfl

/-- From the length 0 nothing is flushed. -/
theorem yylex_cons {a : Arrival} (ha : a.token.recognised = true) (as : List Arrival) (g : Gdb) :
    yylex cfg (a :: as) g = (a.token.own cfg a.locals a.behind >>= fun _ => yylex cfg as) g :=
  next_eq cfg ha as 0 g

/-- Behind a run, the rest of the session. -/
theorem endOfRun_eq {after : List Arrival} (hafter : StartsRecognised after) (len : Nat) (g : Gdb) :
    (actAll cfg after len >>= endOfInput) g = ⟨(yylex cfg after g).value, (yylex cfg after g).state,
      flushEvents len ++ (yylex cfg after g).events⟩ := by
  cases after with
  | nil =>
      have hend (n : Nat) : endOfInput n g = ⟨.ok (), g, flushEvents n⟩ := by
        have hzero : (handleError n g).value = .ok 0 := by rw [handleError_eq]
        have hbind := bind_of_ok (f := fun _ : Nat => (pure () : GdbM Unit)) hzero
        rw [handleError_eq] at hbind
        exact hbind.trans (congrArg (Outcome.mk _ _) (List.append_nil _))
      have hlex : yylex cfg [] g = ⟨.ok (), g, []⟩ := hend 0
      have hact : (actAll cfg [] len >>= endOfInput) g = ⟨.ok (), g, flushEvents len⟩ := hend len
      rw [hact, hlex, List.append_nil]
  | cons a as =>
      have ha : a.token.recognised = true := hafter a rfl
      rw [next_eq cfg ha as len g, yylex_cons cfg ha as g]

/-- Behind a recognised token, or before the first one, there is no error. -/
theorem actAll_settled {before : List Arrival} (h : EndsRecognised before) {g : Gdb} {len : Nat}
    (hlen : (actAll cfg before 0 g).value = .ok len) : len = 0 := by
  rcases List.eq_nil_or_concat before with rfl | ⟨as, a, rfl⟩
  · cases hlen
    rfl
  · have ha : a.token.recognised = true := h a (by simp)
    rw [List.concat_eq_append, actAll_append] at hlen
    obtain ⟨n, -, hbind⟩ := bind_ok hlen
    have hlast : actAll cfg [a] n = handleError n >>= fun n =>
        a.token.own cfg a.locals a.behind >>= fun _ => pure n :=
      (bind_pure (a.token.act cfg a.locals a.behind n)).trans (act_recognised cfg ha n)
    rw [hbind, hlast] at hlen
    obtain ⟨n', hn', hrest⟩ := bind_ok hlen
    rw [handleError_eq] at hn'
    cases hn'
    rw [hrest] at hlen
    obtain ⟨u, -, hown⟩ := bind_ok hlen
    rw [hown] at hlen
    cases hlen
    rfl

end

/-- **The error buffer holds what is stored into it, and every run of errors asks for as many
retransmissions as it fills buffers.** -/
theorem errorBufferLaw :
    (∀ cfg g arrivals, ErrorBufferLaw cfg g arrivals) ∧ ∀ input, TokenLaw input := by
  refine ⟨fun cfg g arrivals => ⟨fun i hmem => ?_, fun before len hbefore hlen => ?_,
    fun before errors after harrivals hends herrors hstarts len hlen => ?_, fun a after ha => ?_⟩,
    tokenLaw⟩
  · rw [yylex_eq] at hmem
    have hact := inBuffer_actAll cfg arrivals (Nat.zero_le 1023)
    rcases mem_events_bind hmem with hfirst | ⟨len, hlen, hsecond⟩
    · exact hact.stores g i hfirst
    · rcases mem_events_bind hsecond with hflush | ⟨n, -, hnone⟩
      · exact (inBuffer_handleError (hact.length g len hlen)).stores _ i hflush
      · cases hnone
  · exact (inBuffer_actAll cfg before (Nat.zero_le _)).length g len hlen
  · obtain ⟨es, len', hact, hcollects⟩ := actAll_errors cfg herrors (Nat.zero_le 1023)
    obtain ⟨hsends, honly⟩ := hcollects.flush
    have hzero := actAll_settled cfg hends hlen
    subst hzero
    refine ⟨es ++ flushEvents len', ?_, hsends, honly⟩
    have hrun : actAll cfg arrivals 0 >>= endOfInput = actAll cfg before 0 >>= fun n =>
        actAll cfg errors n >>= fun n => actAll cfg after n >>= endOfInput := by
      rw [harrivals, actAll_append, LawfulMonad.bind_assoc]
      simp only [actAll_append, LawfulMonad.bind_assoc]
    have herrorsOk : (actAll cfg errors 0 (actAll cfg before 0 g).state).value = .ok len' := by
      rw [hact]
    rw [yylex_eq, hrun, bind_of_ok hlen, bind_of_ok herrorsOk, hact, endOfRun_eq cfg hstarts,
      List.append_assoc]
  · exact yylex_cons cfg ha after g

end Armator
