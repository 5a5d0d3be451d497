import Armator.Gdb.Rio
import Armator.Laws.Debugging

set_option autoImplicit false

/-! # What the debugger receives

The stub says everything through `Rio_writen`. However few bytes `write` takes at a time, the
debugger can tell the replies from each other: it finds those of its session, in order and as
often as it has asked for them, and no others even if the connection breaks in the middle of one
(`replies_received`).
-/

namespace Armator

open Logged CString

/-! ## What is said -/

/-- A text that the stub says, and the token that the scanner makes of it. -/
inductive Says : List Byte → ScannerToken → Prop
  | ack : Says [chr '+'] .ack
  | retransmission : Says [chr '-'] .retransmission
  | reply {p : List Byte} (hp : ∀ b ∈ p, b ≠ chr '$' ∧ b ≠ chr '#') :
      Says (frame p) (.packet (frame p))

/-- The payload of a packet whose checksum is right. -/
def ScannerToken.payload? : ScannerToken → Option (List Byte)
  | .packet yytext =>
    if accepted yytext then some ((yytext.drop 1).take (yytext.length - 4)) else none
  | _ => none

/-- What the debugger hears of an exchange. -/
def Exchange.heard (x : Exchange) (reply : List Byte) : List ScannerToken :=
  x.damaged.flatMap (fun y => List.replicate (noise y.junk).length .retransmission ++
      [.retransmission]) ++
    (List.replicate (noise x.good.junk).length .retransmission ++
      .ack :: List.replicate (x.again + 1) (.packet (frame reply)))

/-- The replies, each as often as it is asked for. -/
def repeated (xs : List Exchange) (replies : List (List Byte)) : List (List Byte) :=
  (List.zipWith (fun x reply => List.replicate (x.again + 1) reply) xs replies).flatten

section

variable {p q s v : List Byte} {t : ScannerToken} {ss : List (List Byte)}
  {ts : List ScannerToken}

theorem isPacket_frame (hp : ∀ b ∈ p, b ≠ chr '$' ∧ b ≠ chr '#') :
    IsPacket p (hex2 (checksum p)) := ⟨hp, isHex_hex2 _, rfl⟩

theorem payload?_frame (p : List Byte) : (ScannerToken.packet (frame p)).payload? = some p := by
  have haccepted : accepted (frame p) = true := by
    rw [show frame p = packetText p (hex2 (checksum p)) from rfl, accepted_packetText rfl,
      decide_eq_true_eq]
    exact valueIn_hex2 _
  have hpayload : ((frame p).drop 1).take ((frame p).length - 4) = p := by
    rw [frame_length, Nat.add_sub_cancel, frame, List.cons_append, List.drop_succ_cons,
      List.drop_zero, List.take_left]
  rw [ScannerToken.payload?, if_pos haccepted, hpayload]

/-- A text is the token, whatever is said next. -/
theorem Says.token (h : Says s t) (v : List Byte) :
    scannerTokens (s ++ v) = t :: scannerTokens v := by
  cases h with
  | ack =>
      rw [List.singleton_append, scannerTokens_single (by decide), firstRule_single, if_pos rfl]
  | retransmission =>
      rw [List.singleton_append, scannerTokens_single (by decide), firstRule_single,
        if_neg (by decide), if_pos rfl]
  | reply hp => exact scannerTokens_packet (isPacket_frame hp) v

theorem says_tokens (h : List.Forall₂ Says ss ts) (v : List Byte) :
    scannerTokens (ss.flatten ++ v) = ts ++ scannerTokens v := by
  induction h with
  | nil => rfl
  | cons hs _ ih => rw [List.flatten_cons, List.append_assoc, hs.token, ih, List.cons_append]

/-! ## A text that breaks off -/

/-- A packet that is found stands in the input. -/
theorem packet_of_mem {yytext : List Byte} (h : .packet yytext ∈ scannerTokens q) :
    ∃ p ds u v, IsPacket p ds ∧ q = u ++ packetText p ds ++ v := by
  obtain ⟨token, htoken, hof⟩ := List.mem_map.mp h
  have hshape := Lexer.tokenize_isToken scannerRules q token htoken
  have htext := ScannerToken.of_text hshape
  rw [hof] at htext
  obtain ⟨before, behind, hsplit⟩ := List.append_of_mem htoken
  have hflat := Lexer.tokenize_flatten scannerRules q
  rw [hsplit, List.map_append, List.map_cons, List.flatten_append, List.flatten_cons] at hflat
  -- only the third rule makes packets
  have hmatch : matchesPacket token.2 = true := by
    obtain ⟨_ | i, w⟩ := token
    · cases hof
    · have hfirst : Lexer.firstRule scannerRules w = some i := hshape
      obtain ⟨hi, hw, -⟩ := List.findIdx?_eq_some_iff_getElem.mp hfirst
      match i with
      | 2 => exact hw
      | 0 | 1 | 3 | _ + 4 => cases hof
  obtain ⟨p, ds, hpacket, hp⟩ := matchesPacket_iff.mp hmatch
  rw [hpacket] at hflat
  exact ⟨p, ds, _, _, hp, by rw [← hflat, List.append_assoc]⟩

/-- In a frame that breaks off there is no packet. -/
theorem no_packet_of_cut {b : Byte} {more : List Byte}
    (hp : ∀ b ∈ p, b ≠ chr '$' ∧ b ≠ chr '#') (hcut : frame p = q ++ b :: more)
    (yytext : List Byte) : .packet yytext ∉ scannerTokens q := by
  intro hmem
  obtain ⟨p', ds', u, v, hp', rfl⟩ := packet_of_mem hmem
  have hdollar := packetText_notMem (isPacket_frame hp)
  rw [show packetText p (hex2 (checksum p)) = frame p from rfl, hcut] at hdollar
  cases u with
  | cons c u =>
      refine hdollar ?_
      simp [packetText]
  | nil =>
      -- the payload of both ends at the first '#'
      have hfirst := takeWhile_packetText (fun b hb => (hp b hb).2) (hex2 (checksum p)) []
      have hsecond := takeWhile_packetText (fun b hb => (hp'.body b hb).2) ds' (v ++ b :: more)
      rw [List.append_nil, show packetText p (hex2 (checksum p)) = frame p from rfl, hcut,
        List.nil_append, List.append_assoc] at hfirst
      rw [hfirst] at hsecond
      have hlength := congrArg List.length hcut
      rw [frame_length, List.nil_append, List.length_append, List.length_append, hp'.length,
        hsecond, List.length_cons] at hlength
      omega

theorem Says.cut {b : Byte} {more : List Byte} (h : Says s t) (hcut : s = q ++ b :: more) :
    (scannerTokens q).filterMap ScannerToken.payload? = [] := by
  have hone {c : Byte} (hc : [c] = q ++ b :: more) : q = [] := by
    have hlength := congrArg List.length hc
    rw [List.length_append, List.length_cons, List.length_cons, List.length_nil] at hlength
    exact List.eq_nil_of_length_eq_zero (by omega)
  cases h with
  | ack =>
      rw [hone hcut]
      rfl
  | retransmission =>
      rw [hone hcut]
      rfl
  | reply hp =>
      rw [List.filterMap_eq_nil_iff]
      intro t ht
      cases t with
      | packet yytext => exact absurd ht (no_packet_of_cut hp hcut yytext)
      | _ => rfl

/-- **Whatever becomes of the texts on their way**, the payloads that arrive are the first ones. -/
theorem payloads_received {calls : List WriteCall} {wire : List Byte} {ok : Bool}
    (h : List.Forall₂ Says ss ts) (hsent : transmit calls ss = some (wire, ok)) :
    (scannerTokens wire).filterMap ScannerToken.payload? <+: ts.filterMap ScannerToken.payload? ∧
      (ok = true → scannerTokens wire = ts) := by
  rcases transmit_beginning hsent with
    ⟨hok, rfl⟩ | ⟨hok, front, s, rest, q, b, more, rfl, rfl, hcut⟩
  · have htokens := says_tokens h []
    rw [List.append_nil, show scannerTokens [] = [] from rfl, List.append_nil] at htokens
    rw [htokens]
    exact ⟨List.prefix_refl _, fun _ => rfl⟩
  · have hfront := (List.forall₂_take_append ts front (s :: rest) h.flip).flip
    have hback := (List.forall₂_drop_append ts front (s :: rest) h.flip).flip
    generalize hts₂ : ts.drop front.length = ts₂ at hback
    cases hback with
    | cons hs _ =>
        rw [says_tokens hfront, List.filterMap_append, hs.cut hcut, List.append_nil]
        refine ⟨(List.take_prefix front.length ts).filterMap _, fun htrue => ?_⟩
        rw [hok] at htrue
        cases htrue

end

/-! ## The answers of a session -/

section

variable {cfg : GdbConfig} {u : GdbLocals} {r : Request} {t t' : Target} {reply : List Byte}

theorem body_of_hex {ds : List Byte} (h : IsHex ds) : ∀ b ∈ ds, b ≠ chr '$' ∧ b ≠ chr '#' :=
  fun b hb => (noDelimiter_of_isHexDigit (h b hb)).frame

/-- No reply contains a character of a frame. -/
theorem Serves.body (h : Serves cfg u r t reply t') : ∀ b ∈ reply, b ≠ chr '$' ∧ b ≠ chr '#' := by
  have hreason (exception : Int) : ∀ b ∈ stopReason exception, b ≠ chr '$' ∧ b ≠ chr '#' := by
    unfold stopReason
    split
    · decide
    · split
      · decide
      · decide
  cases h with
  | reason => exact hreason _
  | dump =>
      intro b hb
      rcases generalText_mem cfg t.arm b hb with hhex | rfl
      · exact (noDelimiter_of_isHexDigit hhex).frame
      · decide
  | restore => decide
  | read => exact body_of_hex (isHex_wordText cfg _)
  | write => decide
  | upload => exact body_of_hex (isHex_hexText _)
  | download => decide
  | refuse => decide
  | step => exact hreason _
  | cont => exact hreason _
  | query _ q =>
      unfold queryAnswer
      split
      · decide
      · split
        · decide
        · split
          · decide
          · exact List.forall_mem_nil _
  | thread _ op =>
      unfold threadAnswer
      split
      · decide
      · decide
  | unknown => exact List.forall_mem_nil _

theorem Served.bodies {rs : List Request} {us : List GdbLocals} {replies : List (List Byte)}
    (h : Served cfg rs us t replies t') :
    ∀ reply ∈ replies, ∀ b ∈ reply, b ≠ chr '$' ∧ b ≠ chr '#' := by
  induction h with
  | nil => exact List.forall_mem_nil _
  | cons hfirst _ ih => exact List.forall_mem_cons.mpr ⟨hfirst.body, ih⟩

theorem says_replicate {s : List Byte} {token : ScannerToken} (h : Says s token) (n : Nat) :
    List.Forall₂ Says (List.replicate n s) (List.replicate n token) := by
  induction n with
  | zero => exact .nil
  | succ n ih => exact .cons h ih

theorem says_noise (junk : List Byte) :
    List.Forall₂ Says (noise junk) (List.replicate (noise junk).length .retransmission) := by
  rw [noise, List.length_replicate]
  exact says_replicate .retransmission _

theorem says_answer (x : Exchange) (hreply : ∀ b ∈ reply, b ≠ chr '$' ∧ b ≠ chr '#') :
    List.Forall₂ Says (x.answer reply) (x.heard reply) := by
  refine List.rel_append ?_ (List.rel_append (says_noise _)
    (.cons .ack (says_replicate (.reply hreply) _)))
  induction x.damaged with
  | nil => exact .nil
  | cons y ys ih =>
      exact List.rel_append (List.rel_append (says_noise y.junk) (.cons .retransmission .nil)) ih

/-- What a session says, and what is heard of it. -/
theorem says_answers {replies : List (List Byte)} (xs : List Exchange)
    (hreplies : ∀ reply ∈ replies, ∀ b ∈ reply, b ≠ chr '$' ∧ b ≠ chr '#') :
    List.Forall₂ Says (List.zipWith Exchange.answer xs replies).flatten
      (List.zipWith Exchange.heard xs replies).flatten := by
  induction xs generalizing replies with
  | nil => exact .nil
  | cons x xs ih =>
      cases replies with
      | nil => exact .nil
      | cons reply replies =>
          obtain ⟨hreply, hrest⟩ := List.forall_mem_cons.mp hreplies
          exact List.rel_append (says_answer x hreply) (ih hrest)

theorem payloads_heard (x : Exchange) (reply : List Byte) :
    (x.heard reply).filterMap ScannerToken.payload? = List.replicate (x.again + 1) reply := by
  have hnone (n : Nat) :
      (List.replicate n ScannerToken.retransmission).filterMap ScannerToken.payload? = [] := by
    rw [List.filterMap_replicate]
    rfl
  have hdamaged : (x.damaged.flatMap fun y => List.replicate (noise y.junk).length
      ScannerToken.retransmission ++ [.retransmission]).filterMap ScannerToken.payload? = [] := by
    rw [List.filterMap_flatMap, List.flatMap_eq_nil_iff]
    intro y _
    rw [List.filterMap_append, hnone]
    rfl
  rw [Exchange.heard, List.filterMap_append, hdamaged, List.filterMap_append, hnone,
    List.filterMap_cons, List.filterMap_replicate, payload?_frame]
  rfl

theorem payloads_repeated (xs : List Exchange) (replies : List (List Byte)) :
    (List.zipWith Exchange.heard xs replies).flatten.filterMap ScannerToken.payload?
      = repeated xs replies := by
  induction xs generalizing replies with
  | nil => rfl
  | cons x xs ih =>
      cases replies with
      | nil => rfl
      | cons reply replies =>
          rw [repeated, List.zipWith_cons_cons, List.zipWith_cons_cons, List.flatten_cons,
            List.flatten_cons, List.filterMap_append, payloads_heard, ih]
          rfl

end

/-! ## The law -/

/-- **The debugger receives the replies of its session and nothing else.** -/
theorem replies_received (cfg : GdbConfig) (xs : List Exchange) (rs : List Request)
    (arrivals : List Arrival) (g : Gdb) (t' : Target) (replies : List (List Byte))
    (hxs : List.Forall₂ (Exchange.Carries cfg) xs rs)
    (harrivals : arrivals.map Arrival.token = scannerTokens (xs.flatMap Exchange.bytes))
    (hserved : Served cfg rs (acceptedLocals arrivals) g.target replies t') :
    let said := sends (yylex cfg arrivals g).events
    (∀ calls wire ok, transmit calls said = some (wire, ok) →
      (scannerTokens wire).filterMap ScannerToken.payload? <+: repeated xs replies ∧
        (ok = true → scannerTokens wire = (List.zipWith Exchange.heard xs replies).flatten)) ∧
      ∀ calls : List WriteCall, (∀ call ∈ calls, call.Resumed) →
        said.flatten.length ≤ calls.countP WriteCall.isTakes →
        ∃ wire, transmit calls said = some (wire, true) ∧
          (scannerTokens wire).filterMap ScannerToken.payload? = repeated xs replies := by
  intro said
  obtain ⟨g', es, -, hend, -, hsends⟩ := yylex_session hxs harrivals hserved
  have hsaid : said = (List.zipWith Exchange.answer xs replies).flatten :=
    (sends_of_runs hend).trans hsends
  have hsays : List.Forall₂ Says said (List.zipWith Exchange.heard xs replies).flatten := by
    rw [hsaid]
    exact says_answers xs hserved.bodies
  have hreceived {calls : List WriteCall} {wire : List Byte} {ok : Bool}
      (hsent : transmit calls said = some (wire, ok)) := payloads_received hsays hsent
  rw [payloads_repeated] at hreceived
  refine ⟨fun calls wire ok hsent => hreceived hsent, fun calls hresumed henough => ?_⟩
  have hsent := transmit_whole hresumed henough
  refine ⟨said.flatten, hsent, ?_⟩
  rw [(hreceived hsent).2 rfl, payloads_repeated]

theorem replies_received_setAndRead :
    let arrivals : List Arrival :=
      (setAndRead.flatMap Exchange.tokens).map fun t => ⟨t, zeroLocals, []⟩
    let said := sends (yylex littleEndian arrivals (idleGdb 64)).events
    let replies := [text ['O', 'K'], wordText littleEndian 0x12345678]
    (∀ calls wire ok, transmit calls said = some (wire, ok) →
      (scannerTokens wire).filterMap ScannerToken.payload? <+: repeated setAndRead replies ∧
        (ok = true →
          scannerTokens wire = (List.zipWith Exchange.heard setAndRead replies).flatten)) ∧
      ∀ calls : List WriteCall, (∀ call ∈ calls, call.Resumed) →
        said.flatten.length ≤ calls.countP WriteCall.isTakes →
        ∃ wire, transmit calls said = some (wire, true) ∧
          (scannerTokens wire).filterMap ScannerToken.payload? = repeated setAndRead replies :=
  replies_received littleEndian setAndRead [.write 7 0x12345678, .read 7] _ (idleGdb 64) _ _
    setAndRead_carries
    (by rw [scannerTokens_session setAndRead_carries, List.map_map]; exact List.map_id _)
    (.cons (.write _ (by decide) _) (.cons (.read _ (by decide)) (.nil _)))

end Armator
