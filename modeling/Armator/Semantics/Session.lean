import Armator.Semantics.Tokens

set_option autoImplicit false

/-! # Sessions

What holds of every session, from what one program does: the reply buffer holds the last reply
sent (`Keeps`), and the stores stay inside `gdb->packet` (`StoresInside`). Both go through
sequences, so a session has them if each packet does (`ScannerProperty.actAll`).
-/

namespace Armator

open Logged CString

/-! ## The actions of the scanner -/

/-- A property of programs that goes through sequences, and that the actions have except for
packets. -/
structure ScannerProperty (P : {α : Type} → GdbM α → Prop) : Prop extends Compositional P where
  errorStore : ∀ o, P (gdbEmit (.errorStore o))
  retransmission : P gdbRequireRetransmission
  transmit : P gdbTransmitPacket

namespace ScannerProperty

variable {P : {α : Type} → GdbM α → Prop} (hP : ScannerProperty P) (cfg : GdbConfig)

include hP

theorem handleError (len : Nat) : P (Armator.handleError len) := by
  unfold Armator.handleError
  split
  · exact hP.bind (hP.errorStore len) fun _ => hP.bind hP.retransmission fun _ => hP.pure 0
  · exact hP.pure len

theorem addCharacterToError (len : Nat) : P (Armator.addCharacterToError len) := by
  have hadd (n : Nat) : P (gdbEmit (.errorStore n) >>= fun _ => pure (n + 1)) :=
    hP.bind (hP.errorStore n) fun _ => hP.pure (n + 1)
  unfold Armator.addCharacterToError
  split
  · exact hP.bind (hP.handleError len) hadd
  · exact hP.bind (hP.pure len) hadd

theorem act {a : Arrival} (hpacket : ∀ yytext, a.token = .packet yytext →
    P (gdbPacketAnalysis cfg a.locals (yytext ++ 0 :: a.behind) yytext.length)) (len : Nat) :
    P (a.token.act cfg a.locals a.behind len) := by
  obtain ⟨t, u, behind⟩ := a
  cases t with
  | ack => exact hP.handleError len
  | retransmission =>
      exact hP.bind (hP.handleError len) fun _ => hP.bind hP.transmit fun _ => hP.pure _
  | packet yytext =>
      exact hP.bind (hP.handleError len) fun _ => hP.bind (hpacket yytext rfl) fun _ => hP.pure _
  | char c => exact hP.addCharacterToError len
  | echo c => exact hP.pure len

/-- A session has the property if its packets have it. -/
theorem actAll {arrivals : List Arrival} (hpackets : ∀ a ∈ arrivals, ∀ yytext,
    a.token = .packet yytext →
      P (gdbPacketAnalysis cfg a.locals (yytext ++ 0 :: a.behind) yytext.length)) (len : Nat) :
    P (Armator.actAll cfg arrivals len) := by
  induction arrivals generalizing len with
  | nil => exact hP.pure len
  | cons a as ih =>
      obtain ⟨hfirst, hrest⟩ := List.forall_mem_cons.mp hpackets
      exact hP.bind (hP.act cfg hfirst len) fun _ => ih hrest _

end ScannerProperty

/-! ## The last reply -/

/-- What is sent is a reply, not an acknowledgement. -/
def isReply (bytes : List Byte) : Bool := bytes.head? = some (chr '$')

def replies (es : List GdbEvent) : List (List Byte) := (sends es).filter isReply

/-- The last reply sent, nothing if there is none. -/
def lastReply (es : List GdbEvent) : List Byte := (replies es).getLastD []

/-- `gdb_transmit_packet` would send the last reply, a whole frame. -/
structure Current (g : Gdb) (es : List GdbEvent) : Prop where
  sent : g.packet.take g.len = lastReply es
  framed : lastReply es = [] ∨ ∃ p, lastReply es = frame p

theorem replies_append (es es' : List GdbEvent) :
    replies (es ++ es') = replies es ++ replies es' := by
  rw [replies, sends_append, List.filter_append]
  rfl

theorem lastReply_append_none {es es' : List GdbEvent} (h : replies es' = []) :
    lastReply (es ++ es') = lastReply es := by
  rw [lastReply, replies_append, h, List.append_nil]
  rfl

theorem lastReply_append_one {es es' : List GdbEvent} {bytes : List Byte}
    (h : replies es' = [bytes]) : lastReply (es ++ es') = bytes := by
  rw [lastReply, replies_append, h]
  simp

theorem lastReply_append {es es' : List GdbEvent} (h : lastReply es' ≠ []) :
    lastReply (es ++ es') = lastReply es' := by
  have hne : replies es' ≠ [] := fun hnil => h (by rw [lastReply, hnil]; rfl)
  rw [lastReply, lastReply, replies_append, List.getLastD_eq_getLast?, List.getLastD_eq_getLast?,
    List.getLast?_append_of_ne_nil _ hne]

theorem lastReply_of_runs {α : Type} {m : GdbM α} {g g' : Gdb} {r : Except Fault α}
    {es : List GdbEvent} (h : Runs shown m g r g' es) :
    lastReply (m g).events = lastReply es := by
  rw [lastReply, lastReply, replies, replies, sends_of_runs h]

theorem Current.of_none {g : Gdb} {es es' : List GdbEvent} (h : Current g es)
    (hnone : replies es' = []) : Current g (es ++ es') := by
  have hlast : lastReply (es ++ es') = lastReply es := lastReply_append_none hnone
  refine ⟨?_, ?_⟩
  · rw [hlast]
    exact h.sent
  · rw [hlast]
    exact h.framed

/-- Where it returns, `m` keeps the reply buffer current. -/
def Keeps {α : Type} (m : GdbM α) : Prop :=
  ∀ g es a, (m g).value = .ok a → Current g es → Current (m g).state (es ++ (m g).events)

theorem compositional_keeps : Compositional @Keeps := by
  refine ⟨fun a g es b _ hcurrent => ?_, fun {_ _ m f} hm hf g es b hvalue hcurrent => ?_⟩
  · have hevents : es ++ ((Pure.pure a : GdbM _) g).events = es := List.append_nil es
    rw [hevents]
    exact hcurrent
  · obtain ⟨a, ha, hbind⟩ := bind_ok hvalue
    rw [hbind] at hvalue ⊢
    have hfirst := hm g es a ha hcurrent
    have hsecond := hf a (m g).state (es ++ (m g).events) b hvalue hfirst
    rwa [List.append_assoc] at hsecond

/-- An event that is no reply. -/
theorem keeps_gdbEmit {e : GdbEvent} (he : replies [e] = []) : Keeps (gdbEmit e) :=
  fun _ _ _ _ hcurrent => hcurrent.of_none he

/-- What is transmitted again is the last reply, or nothing at all. -/
theorem keeps_gdbTransmitPacket : Keeps gdbTransmitPacket := by
  intro g es b _ hcurrent
  have hstate : (gdbTransmitPacket g).state = g := rfl
  have hreplies : replies (gdbTransmitPacket g).events = [lastReply es].filter isReply := by
    rw [← hcurrent.sent]
    rfl
  rw [hstate]
  rcases hcurrent.framed with hnil | ⟨p, hframe⟩
  · refine hcurrent.of_none ?_
    rw [hreplies, hnil]
    rfl
  · have hlast : lastReply (es ++ (gdbTransmitPacket g).events) = frame p := by
      refine lastReply_append_one ?_
      rw [hreplies, hframe]
      rfl
    exact ⟨by rw [hlast, ← hframe, hcurrent.sent], .inr ⟨p, hlast⟩⟩

theorem sends_textStores (o : Nat) (ts : List (List Byte)) : sends (textStores o ts) = [] := by
  induction ts generalizing o with
  | nil => rfl
  | cons t ts ih => exact ih _

theorem sends_replyEvents (ts : List (List Byte)) :
    sends (replyEvents ts) = [frame ts.flatten] := by
  rw [replyEvents, sends_append, sends_textStores]
  rfl

/-- A reply is all that is sent. -/
theorem sends_reply {p : List GdbEvent} (hp : Silent p) (ts : List (List Byte)) :
    sends (p ++ replyEvents ts) = [frame ts.flatten] := by
  rw [sends_append, hp.sends, sends_replyEvents]
  rfl

/-- A program that replies once or sends nothing keeps the buffer current. -/
theorem keeps_of_answer {m : GdbM Unit} {bound : Gdb → Nat → Prop}
    (h : ∀ g, Answer g m (bound g)) : Keeps m := by
  intro g es a hvalue hcurrent
  cases h g with
  | reply c exception ts es' silent bounded runs =>
      have hsends : sends (m g).events = [frame ts.flatten] := by
        rw [sends_of_runs runs, sends_reply silent]
      have hlast : lastReply (es ++ (m g).events) = frame ts.flatten := by
        refine lastReply_append_one ?_
        rw [replies, hsends]
        rfl
      rw [runs.state]
      exact ⟨by rw [hlast]; exact Gdb.replied_take _ _, .inr ⟨_, hlast⟩⟩
  | nothing es' silent runs =>
      have hsends : sends (m g).events = [] := by rw [sends_of_runs runs, silent.sends]
      rw [runs.state]
      exact hcurrent.of_none (by rw [replies, hsends]; rfl)
  | fault f c exception es' silent runs =>
      rw [runs.value] at hvalue
      cases hvalue

theorem keeps_gdbPacketAnalysis (cfg : GdbConfig) (u : GdbLocals) (packet : List Byte)
    (length : Nat) : Keeps (gdbPacketAnalysis cfg u packet length) := by
  have hack : Keeps gdbSendAck := keeps_gdbEmit rfl
  have hretransmission : Keeps gdbRequireRetransmission := keeps_gdbEmit rfl
  have hdispatch (index : Byte) (data : List Byte) : Keeps (dispatch cfg u index data) :=
    keeps_of_answer (dispatch_answer cfg u · index data)
  exact compositional_keeps.ite (compositional_keeps.bind hack fun _ => hdispatch _ _)
    hretransmission

/-- Every session keeps the reply buffer current. -/
theorem keeps_actAll (cfg : GdbConfig) (arrivals : List Arrival) (len : Nat) :
    Keeps (actAll cfg arrivals len) := by
  have hactions : ScannerProperty @Keeps :=
    { compositional_keeps with
      errorStore := fun _ => keeps_gdbEmit rfl
      retransmission := keeps_gdbEmit rfl
      transmit := keeps_gdbTransmitPacket }
  exact hactions.actAll cfg (fun a _ yytext _ => keeps_gdbPacketAnalysis cfg a.locals _ _) len

/-- What `handle_error` does of an error of `len` characters. -/
def flushEvents (len : Nat) : List GdbEvent :=
  if len = 0 then [] else [.errorStore len, .send [chr '-']]

theorem handleError_eq (len : Nat) (g : Gdb) :
    handleError len g = ⟨.ok 0, g, flushEvents len⟩ := by
  unfold handleError flushEvents
  by_cases hlen : len = 0
  · rw [if_neg (not_not.mpr hlen), if_pos hlen, hlen]
    rfl
  · rw [if_pos hlen, if_neg hlen]
    rfl

theorem handleError_runs (g : Gdb) (len : Nat) :
    Runs shown (handleError len) g (.ok 0) g (flushEvents len) := by
  have hshown : (flushEvents len).filter shown = flushEvents len := by
    unfold flushEvents
    split <;> rfl
  refine ⟨?_, ?_, ?_⟩
  · rw [handleError_eq]
  · rw [handleError_eq]
  · rw [handleError_eq]
    exact hshown

/-! ## The stores into the reply buffer -/

/-- `m` stores into the `MAX_PACKET_SIZE` characters of `gdb->packet` only. -/
def StoresInside {α : Type} (m : GdbM α) : Prop :=
  ∀ g k n, .store k n ∈ (m g).events → k + n ≤ MAX_PACKET_SIZE

theorem compositional_storesInside : Compositional @StoresInside := by
  refine ⟨fun a g k n hmem => ?_, fun hm hf g k n hmem => ?_⟩
  · cases hmem
  · rcases mem_events_bind hmem with hfirst | ⟨a, -, hsecond⟩
    · exact hm g k n hfirst
    · exact hf a _ k n hsecond

theorem storesInside_gdbEmit {e : GdbEvent} (he : e.quiet = true ∨ ∃ bytes, e = .send bytes) :
    StoresInside (gdbEmit e) := by
  intro g k n hmem
  have hstore : GdbEvent.store k n = e := List.mem_singleton.mp hmem
  subst hstore
  rcases he with hquiet | ⟨bytes, hsend⟩
  · cases hquiet
  · cases hsend

theorem textStores_bound {o : Nat} {ts : List (List Byte)} {k n : Nat}
    (h : GdbEvent.store k n ∈ textStores o ts) : k + n ≤ o + ts.flatten.length + 1 := by
  induction ts generalizing o with
  | nil => cases h
  | cons t ts ih =>
      rw [List.flatten_cons, List.length_append]
      rcases List.mem_cons.mp h with hhead | htail
      · cases hhead
        omega
      · have hrest := ih htail
        omega

/-- Every store of a reply is within the frame and its NUL. -/
theorem replyEvents_bound {ts : List (List Byte)} {k n : Nat}
    (h : GdbEvent.store k n ∈ replyEvents ts) : k + n ≤ ts.flatten.length + 5 := by
  rcases List.mem_append.mp h with htext | hframe
  · have hbound := textStores_bound htext
    omega
  · simp only [frameEvents, List.mem_cons, GdbEvent.store.injEq, reduceCtorEq, List.not_mem_nil,
      or_false] at hframe
    omega

theorem Silent.not_store {es : List GdbEvent} (h : Silent es) (k n : Nat) :
    GdbEvent.store k n ∉ es := fun hmem => by cases h _ hmem

/-- A store among the events of a run is among those shown. -/
theorem store_mem_of_runs {α : Type} {m : GdbM α} {g g' : Gdb} {r : Except Fault α}
    {es : List GdbEvent} (h : Runs shown m g r g' es) {k n : Nat}
    (hmem : GdbEvent.store k n ∈ (m g).events) : GdbEvent.store k n ∈ es :=
  (mem_of_runs h rfl).mp hmem

/-- A payload of up to 1019 characters leaves room for the frame and the NUL. -/
theorem Answer.storesInside {g : Gdb} {m : GdbM Unit}
    (h : Answer g m fun n => n + 5 ≤ MAX_PACKET_SIZE) {k n : Nat}
    (hmem : GdbEvent.store k n ∈ (m g).events) : k + n ≤ MAX_PACKET_SIZE := by
  cases h with
  | reply c exception ts es silent bounded runs =>
      rcases List.mem_append.mp (store_mem_of_runs runs hmem) with hes | hreply
      · exact absurd hes (silent.not_store k n)
      · exact (replyEvents_bound hreply).trans bounded
  | nothing es silent runs => exact absurd (store_mem_of_runs runs hmem) (silent.not_store k n)
  | fault f c exception es silent runs =>
      exact absurd (store_mem_of_runs runs hmem) (silent.not_store k n)

/-! ## The commands by their character -/

theorem handler_eq_readMemory {index : Byte} (h : handler index = some .readMemory) :
    index = chr 'm' := by
  have hall : ∀ n : Fin 256, handler (BitVec.ofFin n) = some .readMemory →
      (BitVec.ofFin n : Byte) = chr 'm' := by decide +kernel
  exact hall index.toFin h

/-- The dump of an `m` request with the argument `data` has fewer than 510 bytes. -/
def ShortDump (u : GdbLocals) (data : List Byte) (mem : Memory) : Prop :=
  (givenRange u data).2.toNat < 510 ∨
    ∃ i < 510, mem.size < ((givenRange u data).1 + BitVec.ofNat 32 i).toNat

theorem dumped_length_lt {mem : Memory} {n : Nat} {address : BitVec 32} {k : Nat} :
    (mem.dumped n address).length < k ↔
      n < k ∨ ∃ i < k, mem.size < (address + BitVec.ofNat 32 i).toNat := by
  induction n generalizing address k with
  | zero =>
      constructor
      · intro hlt
        exact .inl hlt
      · rintro (hlt | ⟨i, hi, -⟩)
        · exact hlt
        · exact lt_of_le_of_lt (Nat.zero_le i) hi
  | succ n ih =>
      rw [Memory.dumped]
      by_cases hread : address.toNat ≤ mem.size
      · rw [if_pos hread, List.length_cons]
        cases k with
        | zero => simp
        | succ k =>
            rw [Nat.add_lt_add_iff_right, Nat.add_lt_add_iff_right, ih]
            refine or_congr_right ⟨fun hex => ?_, fun hex => ?_⟩
            · obtain ⟨i, hi, hsize⟩ := hex
              refine ⟨i + 1, Nat.succ_lt_succ hi, ?_⟩
              rw [← next_add_ofNat]
              exact hsize
            · obtain ⟨i, hi, hsize⟩ := hex
              cases i with
              | zero =>
                  rw [BitVec.add_zero] at hsize
                  exact absurd hread (Nat.not_le.mpr hsize)
              | succ i =>
                  refine ⟨i, Nat.lt_of_succ_lt_succ hi, ?_⟩
                  rw [next_add_ofNat]
                  exact hsize
      · rw [if_neg hread, List.length_nil]
        constructor
        · intro hk
          refine .inr ⟨0, hk, ?_⟩
          rw [BitVec.add_zero]
          exact Nat.not_le.mp hread
        · rintro (hlt | ⟨i, hi, -⟩)
          · exact lt_of_le_of_lt (Nat.zero_le _) hlt
          · exact lt_of_le_of_lt (Nat.zero_le i) hi

theorem dumpText_length_lt {u : GdbLocals} {data : List Byte} {mem : Memory} :
    (dumpText u data mem).length < 1020 ↔ ShortDump u data mem := by
  generalize hdumped : mem.dumped (givenRange u data).2.toNat (givenRange u data).1 = bytes
  calc (dumpText u data mem).length < 1020 ↔ 2 * bytes.length < 2 * 510 := by
        rw [dumpText, hexText_length, hdumped]
    _ ↔ bytes.length < 510 := Nat.mul_lt_mul_left (by decide)
    _ ↔ ShortDump u data mem := by rw [← hdumped]; exact dumped_length_lt

/-- What is dispatched stays inside the buffer, unless it is a long dump. -/
theorem dispatch_answer_short (cfg : GdbConfig) (u : GdbLocals) (index : Byte) (data : List Byte)
    (g : Gdb) (hshort : index = chr 'm' → ShortDump u data g.mem) :
    Answer g (dispatch cfg u index data) fun n => n + 5 ≤ MAX_PACKET_SIZE := by
  by_cases hm : index = chr 'm'
  · have hlength := dumpText_length_lt.mpr (hshort hm)
    have hdispatch : dispatch cfg u index data = readMemory u data := by
      rw [hm]
      rfl
    rw [hdispatch]
    refine .ofTexts (dumpTexts_flatten u data g.mem) (silent_rangeEvents data) ?_
      (readMemory_runs u data g)
    simp only [MAX_PACKET_SIZE]
    omega
  · refine (dispatch_answer cfg u g index data).mono fun n hn => ?_
    rcases hn with hhandler | hlong
    · exact absurd (handler_eq_readMemory hhandler) hm
    · exact (Nat.add_le_add_right hlong 5).trans (by decide)

/-! ## Sessions of short dumps -/

theorem head?_eq_some_iff {p : List Byte} {c : Byte} (hc : c ≠ 0) :
    p.head? = some c ↔ p.headD 0 = c := by
  cases p with
  | nil => simpa using hc.symm
  | cons b p => simp

/-- An `m` request asks for at most 509 bytes. -/
def Arrival.Fits (a : Arrival) : Prop :=
  match a.token with
  | .packet yytext =>
      ∃ p ds, yytext = packetText p ds ∧ IsPacket p ds ∧
        (GoodChecksum p ds → p.head? = some (chr 'm') →
          (givenRange a.locals (argument p ds a.behind)).2.toNat ≤ 509)
  | _ => True

section

variable (cfg : GdbConfig)

theorem storesInside_gdbPacketAnalysis {u : GdbLocals} {p ds behind : List Byte}
    (h : IsPacket p ds)
    (hshort : GoodChecksum p ds → p.head? = some (chr 'm') →
      (givenRange u (argument p ds behind)).2.toNat ≤ 509) :
    StoresInside (gdbPacketAnalysis cfg u (requestBlock p ds behind) (p.length + 4)) := by
  have hsend (c : Byte) : StoresInside (gdbEmit (.send [c])) := storesInside_gdbEmit (.inr ⟨_, rfl⟩)
  rw [gdbPacketAnalysis_eq behind cfg u h.hex h.two]
  by_cases hgood : GoodChecksum p ds
  · rw [if_pos hgood]
    refine compositional_storesInside.bind (hsend _) fun _ g k n hmem => ?_
    refine (dispatch_answer_short cfg u _ _ g fun hm => ?_).storesInside hmem
    have hsize := hshort hgood ((head?_eq_some_iff (by decide)).mpr hm)
    exact .inl (by omega)
  · rw [if_neg hgood]
    exact hsend _

theorem storesInside_gdbTransmitPacket : StoresInside gdbTransmitPacket := by
  intro g k n hmem
  cases List.mem_singleton.mp hmem

theorem scannerProperty_storesInside : ScannerProperty @StoresInside where
  toCompositional := compositional_storesInside
  errorStore _ := storesInside_gdbEmit (.inl rfl)
  retransmission := storesInside_gdbEmit (.inr ⟨_, rfl⟩)
  transmit := storesInside_gdbTransmitPacket

theorem Arrival.Fits.storesInside {a : Arrival} (h : a.Fits) (yytext : List Byte)
    (htoken : a.token = .packet yytext) :
    StoresInside
      (gdbPacketAnalysis cfg a.locals (yytext ++ 0 :: a.behind) yytext.length) := by
  rw [Arrival.Fits, htoken] at h
  obtain ⟨p, ds, rfl, hp, hshort⟩ := h
  have hanalysis := storesInside_gdbPacketAnalysis cfg hp hshort
  rwa [← packetText_eq_requestBlock, ← hp.length] at hanalysis

/-- A session of short dumps stores inside the buffer. -/
theorem storesInside_actAll {arrivals : List Arrival} (h : ∀ a ∈ arrivals, a.Fits) (len : Nat) :
    StoresInside (actAll cfg arrivals len) :=
  scannerProperty_storesInside.actAll cfg (fun a ha => (h a ha).storesInside cfg) len

end

/-! ## An idle stub -/

/-- No indeterminate local is anything but 0, and no fuel is needed. -/
def zeroLocals : GdbLocals where
  fuel := 0
  steps := fun _ => ⟨0, 0, 0, 0, 0, 0⟩
  instruction := 0
  given := 0
  address := 0
  size := 0
  byte := 0
  reg := 0
  value := fun _ => 0

def littleEndian : GdbConfig := ⟨Host.masked, false, false⟩

/-- The stub right after its start, with a memory of `size` zero bytes. -/
def idleGdb (size : Nat) : Gdb :=
  gdbInitData ⟨0, ⟨fun _ => 0⟩, memoryCreate (some fun _ => 0) size 0⟩ []

end Armator
