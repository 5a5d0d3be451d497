import Armator.Laws.ErrorBuffer
import Armator.System.Service

set_option autoImplicit false

/-! # Sessions over a bad line

On the line between debugger and stub, packets are damaged and characters appear that belong to
none. A damaged packet is sent again when the stub asks for it, a damaged reply when the
debugger does. Whatever is repeated, each request is carried out once (`session_served`).
-/

namespace Armator

open Logged CString

/-! ## The line -/

/-- A packet, and what arrives in front of it that belongs to none. -/
structure Transmission where
  junk : List Byte
  payload : List Byte
  digits : List Byte

namespace Transmission

def bytes (x : Transmission) : List Byte := x.junk ++ packetText x.payload x.digits

/-- The packet is one, and nothing in front of it has a meaning. -/
structure WellFormed (x : Transmission) : Prop where
  junk : ∀ b ∈ x.junk, b ≠ chr '$' ∧ b ≠ chr '+' ∧ b ≠ chr '-'
  packet : IsPacket x.payload x.digits

instance (p ds : List Byte) : Decidable (IsPacket p ds) :=
  decidable_of_iff ((∀ b ∈ p, b ≠ chr '$' ∧ b ≠ chr '#') ∧ (∀ b ∈ ds, isHexDigit b = true) ∧
    ds.length = 2) ⟨fun h => ⟨h.1, h.2.1, h.2.2⟩, fun h => ⟨h.body, h.hex, h.two⟩⟩

instance (x : Transmission) : Decidable x.WellFormed :=
  decidable_of_iff ((∀ b ∈ x.junk, b ≠ chr '$' ∧ b ≠ chr '+' ∧ b ≠ chr '-') ∧
    IsPacket x.payload x.digits) ⟨fun h => ⟨h.1, h.2⟩, fun h => ⟨h.junk, h.packet⟩⟩

end Transmission

/-- The way of one request: damaged packets, the good one, how often the reply is asked for
again, how many acknowledgements follow. -/
structure Exchange where
  damaged : List Transmission
  good : Transmission
  again : Nat
  acks : Nat

namespace Exchange

def bytes (x : Exchange) : List Byte :=
  x.damaged.flatMap Transmission.bytes ++ (x.good.bytes ++
    (List.replicate x.again (chr '-') ++ List.replicate x.acks (chr '+')))

/-- The exchange is about the request `r`. -/
structure Carries (cfg : GdbConfig) (x : Exchange) (r : Request) : Prop where
  damaged : ∀ y ∈ x.damaged, y.WellFormed ∧ ¬ GoodChecksum y.payload y.digits
  good : x.good.WellFormed ∧ GoodChecksum x.good.payload x.good.digits
  text : r.Text cfg x.good.payload

/-- A request that arrives at once, with its checksum, and is acknowledged. -/
def clean (p : List Byte) : Exchange := ⟨[], ⟨[], p, hex2 (checksum p)⟩, 0, 1⟩

theorem carries_clean {cfg : GdbConfig} {r : Request} {p : List Byte}
    (hp : ∀ b ∈ p, b ≠ chr '$' ∧ b ≠ chr '#') (htext : r.Text cfg p) :
    (clean p).Carries cfg r := by
  refine ⟨List.forall_mem_nil _, ⟨⟨List.forall_mem_nil _, ?_⟩, valueIn_hex2 _⟩, htext⟩
  exact ⟨hp, isHex_hex2 _, rfl⟩

end Exchange

/-- What characters without a meaning make the stub send. -/
def noise (junk : List Byte) : List (List Byte) :=
  List.replicate (retransmissions (junk.countP (· ≠ 10))) [chr '-']

/-- What the stub sends in an exchange that `reply` answers. -/
def Exchange.answer (x : Exchange) (reply : List Byte) : List (List Byte) :=
  x.damaged.flatMap (fun y => noise y.junk ++ [[chr '-']]) ++ (noise x.good.junk ++ ([chr '+'] ::
    List.replicate (x.again + 1) (frame reply)))

/-! ## Accepted packets -/

/-- The two last characters of a packet are its checksum. -/
def accepted (yytext : List Byte) : Bool :=
  GoodChecksum ((yytext.drop 1).take (yytext.length - 4)) (yytext.drop (yytext.length - 2))

/-- The circumstances a packet is carried out in. -/
def Arrival.accepted? (a : Arrival) : Option GdbLocals :=
  match a.token with
  | .packet yytext => if accepted yytext then some a.locals else none
  | _ => none

def acceptedLocals (arrivals : List Arrival) : List GdbLocals :=
  arrivals.filterMap Arrival.accepted?

section

variable {p ds : List Byte}

theorem accepted_packetText (htwo : ds.length = 2) :
    accepted (packetText p ds) = decide (GoodChecksum p ds) := by
  have hlength : (packetText p ds).length = p.length + 4 := by rw [packetText_length, htwo]
  have hpayload : ((packetText p ds).drop 1).take ((packetText p ds).length - 4) = p := by
    rw [hlength, Nat.add_sub_cancel, packetText, List.cons_append, List.drop_succ_cons,
      List.drop_zero, List.take_left]
  have hdigits : (packetText p ds).drop ((packetText p ds).length - 2) = ds := by
    have hsplit : packetText p ds = (chr '$' :: p ++ [chr '#']) ++ ds := by simp [packetText]
    have hfront : (packetText p ds).length - 2 = (chr '$' :: p ++ [chr '#']).length := by
      rw [hlength]
      simp
    rw [hfront, hsplit, List.drop_left]
  rw [accepted, hpayload, hdigits]

theorem acceptedLocals_append (as bs : List Arrival) :
    acceptedLocals (as ++ bs) = acceptedLocals as ++ acceptedLocals bs := List.filterMap_append

/-- Nothing is carried out but packets. -/
theorem acceptedLocals_nil {as : List Arrival}
    (h : ∀ a ∈ as, ∀ yytext, a.token = .packet yytext → accepted yytext = false) :
    acceptedLocals as = [] := by
  rw [acceptedLocals, List.filterMap_eq_nil_iff]
  intro a ha
  have hnot := h a ha
  unfold Arrival.accepted?
  cases htoken : a.token with
  | packet yytext => exact if_neg (by simp [hnot yytext htoken])
  | _ => rfl

end

/-! ## Tokens of an exchange -/

/-- The token of a character without a meaning. -/
def junkToken (b : Byte) : ScannerToken := if b = 10 then .echo b else .char b

def Transmission.tokens (x : Transmission) : List ScannerToken :=
  x.junk.map junkToken ++ [.packet (packetText x.payload x.digits)]

def Exchange.tokens (x : Exchange) : List ScannerToken :=
  x.damaged.flatMap Transmission.tokens ++ (x.good.tokens ++
    (List.replicate x.again .retransmission ++ List.replicate x.acks .ack))

section

/-- Only a '$' begins a longer token. -/
theorem scannerTokens_single {b : Byte} (hb : b ≠ chr '$') (v : List Byte) :
    scannerTokens (b :: v)
      = ScannerToken.of (Lexer.firstRule scannerRules [b], [b]) :: scannerTokens v := by
  rw [scannerTokens, Lexer.tokenize_single fun k hk hle => ?_]
  · rfl
  · by_contra hsome
    have hlength : ((b :: v).take k).length = k := by rw [List.length_take, Nat.min_eq_left hle]
    rcases scannerRule_cases (Option.isSome_iff_ne_none.mpr hsome) with hone | hpacket
    · omega
    · -- a packet begins with '$'
      obtain ⟨p, ds, htext, -⟩ := matchesPacket_iff.mp hpacket
      have hhead := congrArg List.head? htext
      obtain ⟨k, rfl⟩ := Nat.exists_eq_succ_of_ne_zero (show k ≠ 0 by omega)
      exact hb (Option.some.inj hhead)

theorem firstRule_single (b : Byte) :
    ScannerToken.of (Lexer.firstRule scannerRules [b], [b])
      = if b = chr '+' then .ack else if b = chr '-' then .retransmission else junkToken b := by
  have hall : ∀ n : Fin 256, ScannerToken.of (Lexer.firstRule scannerRules [BitVec.ofFin n],
      [(BitVec.ofFin n : Byte)]) = if (BitVec.ofFin n : Byte) = chr '+' then .ack
        else if (BitVec.ofFin n : Byte) = chr '-' then .retransmission
        else junkToken (BitVec.ofFin n) := by decide +kernel
  exact hall b.toFin

theorem scannerTokens_junk {junk : List Byte}
    (h : ∀ b ∈ junk, b ≠ chr '$' ∧ b ≠ chr '+' ∧ b ≠ chr '-') (v : List Byte) :
    scannerTokens (junk ++ v) = junk.map junkToken ++ scannerTokens v := by
  induction junk with
  | nil => rfl
  | cons b junk ih =>
      obtain ⟨⟨hdollar, hplus, hminus⟩, hrest⟩ := List.forall_mem_cons.mp h
      rw [List.cons_append, scannerTokens_single hdollar, firstRule_single, if_neg hplus,
        if_neg hminus, ih hrest]
      rfl

theorem scannerTokens_replicate {b : Byte} {t : ScannerToken} (hb : b ≠ chr '$')
    (ht : ScannerToken.of (Lexer.firstRule scannerRules [b], [b]) = t) (n : Nat) (v : List Byte) :
    scannerTokens (List.replicate n b ++ v) = List.replicate n t ++ scannerTokens v := by
  induction n with
  | zero => rfl
  | succ n ih =>
      rw [List.replicate_succ, List.replicate_succ, List.cons_append, scannerTokens_single hb, ht,
        ih]
      rfl

theorem scannerTokens_transmission {x : Transmission} (hx : x.WellFormed) (v : List Byte) :
    scannerTokens (x.bytes ++ v) = x.tokens ++ scannerTokens v := by
  rw [Transmission.bytes, List.append_assoc, scannerTokens_junk hx.junk,
    scannerTokens_packet hx.packet, Transmission.tokens, List.append_assoc]
  rfl

theorem scannerTokens_transmissions {xs : List Transmission} (hxs : ∀ x ∈ xs, x.WellFormed)
    (v : List Byte) :
    scannerTokens (xs.flatMap Transmission.bytes ++ v)
      = xs.flatMap Transmission.tokens ++ scannerTokens v := by
  induction xs with
  | nil => rfl
  | cons x xs ih =>
      obtain ⟨hx, hrest⟩ := List.forall_mem_cons.mp hxs
      rw [List.flatMap_cons, List.flatMap_cons, List.append_assoc, scannerTokens_transmission hx,
        ih hrest, List.append_assoc]

theorem scannerTokens_exchange {cfg : GdbConfig} {x : Exchange} {r : Request}
    (hx : x.Carries cfg r) (v : List Byte) :
    scannerTokens (x.bytes ++ v) = x.tokens ++ scannerTokens v := by
  have hminus : ScannerToken.of (Lexer.firstRule scannerRules [chr '-'], [chr '-'])
      = .retransmission := by decide
  have hplus : ScannerToken.of (Lexer.firstRule scannerRules [chr '+'], [chr '+']) = .ack := by
    decide
  rw [Exchange.bytes, List.append_assoc, List.append_assoc, List.append_assoc,
    scannerTokens_transmissions fun y hy => (hx.damaged y hy).1,
    scannerTokens_transmission hx.good.1, scannerTokens_replicate (by decide) hminus,
    scannerTokens_replicate (by decide) hplus, Exchange.tokens]
  simp only [List.append_assoc]

/-- The tokens of a session. -/
theorem scannerTokens_session {cfg : GdbConfig} {xs : List Exchange} {rs : List Request}
    (hxs : List.Forall₂ (Exchange.Carries cfg) xs rs) :
    scannerTokens (xs.flatMap Exchange.bytes) = xs.flatMap Exchange.tokens := by
  induction hxs with
  | nil => rfl
  | cons hx _ ih =>
      rw [List.flatMap_cons, List.flatMap_cons, scannerTokens_exchange hx, ih]

end

/-! ## What the stub does of them -/

section

variable {cfg : GdbConfig} {as bs : List Arrival} {g g' g'' : Gdb} {sent sent' : List (List Byte)}

/-- Acting upon `as`, with an empty error buffer before and after, leads to `g'`; `sent` is sent. -/
def Acts (cfg : GdbConfig) (as : List Arrival) (g : Gdb) (sent : List (List Byte)) (g' : Gdb) :
    Prop :=
  ∃ es, Runs shown (actAll cfg as 0) g (.ok 0) g' es ∧ sends es = sent

theorem acts_nil (cfg : GdbConfig) (g : Gdb) : Acts cfg [] g [] g := ⟨[], Runs.okPure _ _ g, rfl⟩

theorem Acts.append (h : Acts cfg as g sent g') (h' : Acts cfg bs g' sent' g'') :
    Acts cfg (as ++ bs) g (sent ++ sent') g'' := by
  obtain ⟨es, hrun, rfl⟩ := h
  obtain ⟨es', hrun', rfl⟩ := h'
  refine ⟨es ++ es', ?_, sends_append es es'⟩
  rw [actAll_append]
  exact hrun.okBind hrun'

/-- One token that is recognised. -/
theorem acts_own {a : Arrival} (ha : a.token.recognised = true) {es : List GdbEvent}
    (hrun : Runs shown (a.token.own cfg a.locals a.behind) g (.ok ()) g' es) (len : Nat) :
    Runs shown (actAll cfg [a] len) g (.ok 0) g' (flushEvents len ++ es) := by
  have hact : actAll cfg [a] len = a.token.act cfg a.locals a.behind len :=
    bind_pure (a.token.act cfg a.locals a.behind len)
  rw [hact, act_recognised cfg ha]
  exact (handleError_runs g len).okBind (hrun.okBindQuiet (Runs.okPure _ _ g'))

theorem junkToken_recognised (b : Byte) : (junkToken b).recognised = false := by
  unfold junkToken
  split <;> rfl

theorem errorLength_junk {junk : List Byte} (has : as.map Arrival.token = junk.map junkToken) :
    errorLength as = junk.countP (· ≠ 10) := by
  have herror (b : Byte) : (junkToken b).isError = decide (b ≠ 10) := by
    unfold junkToken
    by_cases hb : b = 10
    · rw [if_pos hb, decide_eq_false (not_not.mpr hb)]
      rfl
    · rw [if_neg hb, decide_eq_true hb]
      rfl
  calc errorLength as = (as.map Arrival.token).countP ScannerToken.isError := by
        rw [List.countP_map]
        rfl
    _ = junk.countP (· ≠ 10) := by
        rw [has, List.countP_map]
        exact List.countP_congr fun b _ => by rw [Function.comp_apply, herror]

/-- A packet with junk in front of it. -/
theorem acts_transmission {x : Transmission} (has : as.map Arrival.token = x.tokens)
    (hrun : ∀ a ∈ as, a.token = .packet (packetText x.payload x.digits) → ∃ es,
      Runs shown (a.token.own cfg a.locals a.behind) g (.ok ()) g' es ∧ sends es = sent) :
    Acts cfg as g (noise x.junk ++ sent) g' := by
  obtain ⟨js, ps, rfl, hjs, hps⟩ := List.map_eq_append_iff.mp has
  obtain ⟨a, rfl, ha⟩ := List.map_eq_singleton_iff.mp hps
  have herrors : ∀ j ∈ js, j.token.recognised = false := by
    intro j hj
    have hmem : j.token ∈ x.junk.map junkToken := hjs ▸ List.mem_map_of_mem hj
    obtain ⟨b, -, hb⟩ := List.mem_map.mp hmem
    rw [← hb]
    exact junkToken_recognised b
  obtain ⟨es', len, hjunk, hcollects⟩ := actAll_errors cfg herrors (Nat.zero_le 1023)
  rw [errorLength_junk hjs] at hcollects
  have hrecognised : a.token.recognised = true := by
    rw [ha]
    rfl
  obtain ⟨es, hown, hsent⟩ := hrun a (by simp) ha
  have hpacket := acts_own hrecognised hown len
  have hfirst : Runs shown (actAll cfg js 0) g (.ok len) g (es'.filter shown) :=
    ⟨by rw [hjunk], by rw [hjunk], by rw [hjunk]⟩
  refine ⟨es'.filter shown ++ (flushEvents len ++ es), ?_, ?_⟩
  · rw [actAll_append]
    exact hfirst.okBind hpacket
  · rw [sends_append, sends_append, sends_shown, ← List.append_assoc, ← sends_append,
      hcollects.flush.1, hsent]
    rfl

/-- The reply is sent again, each time it is asked for. -/
theorem acts_again {n : Nat} {reply : List Byte}
    (has : as.map Arrival.token = List.replicate n .retransmission) :
    Acts cfg as (g.replied reply) (List.replicate n (frame reply)) (g.replied reply) := by
  induction n generalizing as with
  | zero =>
      rw [List.map_eq_nil_iff.mp has]
      exact acts_nil cfg _
  | succ n ih =>
      obtain ⟨a, as, rfl, ha, has⟩ := List.map_eq_cons_iff.mp has
      have hrecognised : a.token.recognised = true := by
        rw [ha]
        rfl
      have hown : Runs shown (a.token.own cfg a.locals a.behind) (g.replied reply) (.ok ())
          (g.replied reply) [.send (frame reply)] := by
        have htransmit := gdbTransmitPacket_runs (g.replied reply)
        rw [Gdb.replied_take] at htransmit
        rw [ha]
        exact htransmit
      have hfirst : Acts cfg [a] (g.replied reply) [frame reply] (g.replied reply) :=
        ⟨_, acts_own hrecognised hown 0, rfl⟩
      exact hfirst.append (ih has)

theorem acts_acks {n : Nat} (has : as.map Arrival.token = List.replicate n .ack) :
    Acts cfg as g [] g := by
  induction n generalizing as with
  | zero =>
      rw [List.map_eq_nil_iff.mp has]
      exact acts_nil cfg g
  | succ n ih =>
      obtain ⟨a, as, rfl, ha, has⟩ := List.map_eq_cons_iff.mp has
      have hrecognised : a.token.recognised = true := by
        rw [ha]
        rfl
      have hown : Runs shown (a.token.own cfg a.locals a.behind) g (.ok ()) g [] := by
        rw [ha]
        exact Runs.okPure _ _ g
      have hfirst : Acts cfg [a] g [] g := ⟨_, acts_own hrecognised hown 0, rfl⟩
      exact hfirst.append (ih has)

/-- Damaged packets change nothing, and their retransmission is required. -/
theorem acts_damaged {xs : List Transmission}
    (hxs : ∀ x ∈ xs, x.WellFormed ∧ ¬ GoodChecksum x.payload x.digits)
    (has : as.map Arrival.token = xs.flatMap Transmission.tokens) :
    Acts cfg as g (xs.flatMap fun x => noise x.junk ++ [[chr '-']]) g := by
  induction xs generalizing as with
  | nil =>
      rw [List.map_eq_nil_iff.mp has]
      exact acts_nil cfg g
  | cons x xs ih =>
      obtain ⟨⟨hx, hbad⟩, hrest⟩ := List.forall_mem_cons.mp hxs
      rw [List.flatMap_cons] at has ⊢
      obtain ⟨bs, cs, rfl, hbs, hcs⟩ := List.map_eq_append_iff.mp has
      refine Acts.append (acts_transmission hbs fun a _ ha => ⟨[.send [chr '-']], ?_, rfl⟩)
        (ih hrest hcs)
      rw [ha]
      show Runs shown (gdbPacketAnalysis cfg a.locals
        (packetText x.payload x.digits ++ 0 :: a.behind)
        (packetText x.payload x.digits).length) g (.ok ()) g [.send [chr '-']]
      rw [packetText_eq_requestBlock, hx.packet.length,
        gdbPacketAnalysis_eq a.behind cfg a.locals hx.packet.hex hx.packet.two, if_neg hbad]
      exact gdbEmit_runs g rfl

/-- **One exchange.** The request is carried out once, and answered as often as it is asked for. -/
theorem acts_exchange {x : Exchange} {r : Request} {u : GdbLocals} {reply : List Byte}
    {t' : Target} (hx : x.Carries cfg r) (has : as.map Arrival.token = x.tokens)
    (hu : acceptedLocals as = [u]) (hserves : Serves cfg u r g.target reply t') :
    Acts cfg as g (x.answer reply) ((g.withTarget t').replied reply) := by
  obtain ⟨hpacket, hgood⟩ := hx.good
  have hds : Seals x.good.digits x.good.payload := ⟨hpacket.packet.hex, hpacket.packet.two, hgood⟩
  obtain ⟨ds, rest, rfl, hdamaged, hrest⟩ := List.map_eq_append_iff.mp has
  obtain ⟨ps, rest, rfl, hps, hrest⟩ := List.map_eq_append_iff.mp hrest
  obtain ⟨ns, cs, rfl, hns, hcs⟩ := List.map_eq_append_iff.mp hrest
  have hanswer : x.answer reply = x.damaged.flatMap (fun y => noise y.junk ++ [[chr '-']]) ++
      (noise x.good.junk ++ [[chr '+'], frame reply] ++
        (List.replicate x.again (frame reply) ++ [])) := by
    rw [Exchange.answer, List.replicate_succ]
    simp
  rw [hanswer]
  refine (acts_damaged hx.damaged hdamaged).append
    (Acts.append (acts_transmission hps fun a hmem ha => ?_)
      ((acts_again hns).append (acts_acks hcs)))
  -- the locals of the good packet are the accepted ones
  have haccepted : a.accepted? = some a.locals := by
    rw [Arrival.accepted?, ha]
    exact if_pos (by rw [accepted_packetText hds.two]; exact decide_eq_true hgood)
  have hlocals : a.locals = u := by
    have hin : a.locals ∈ acceptedLocals (ds ++ (ps ++ (ns ++ cs))) :=
      List.mem_filterMap.mpr ⟨a, by simp [hmem], haccepted⟩
    rw [hu] at hin
    exact List.mem_singleton.mp hin
  rw [ha, hlocals]
  exact serves_runs hx.text hserves hds a.behind

/-- One packet of an exchange is accepted. -/
theorem acceptedLocals_exchange {x : Exchange} {r : Request} (hx : x.Carries cfg r)
    (has : as.map Arrival.token = x.tokens) : ∃ u, acceptedLocals as = [u] := by
  obtain ⟨hpacket, hgood⟩ := hx.good
  obtain ⟨ds, front, rfl, hdamaged, hfront⟩ := List.map_eq_append_iff.mp has
  obtain ⟨ps, rest, rfl, hps, hrest⟩ := List.map_eq_append_iff.mp hfront
  obtain ⟨js, qs, rfl, hjs, hqs⟩ := List.map_eq_append_iff.mp hps
  obtain ⟨a, rfl, ha⟩ := List.map_eq_singleton_iff.mp hqs
  have hnone {bs : List Arrival} {ts : List ScannerToken} (hbs : bs.map Arrival.token = ts)
      (hts : ∀ yytext, .packet yytext ∈ ts → accepted yytext = false) : acceptedLocals bs = [] := by
    refine acceptedLocals_nil fun b hb yytext htoken => hts yytext ?_
    rw [← hbs, ← htoken]
    exact List.mem_map_of_mem hb
  have hjunk {junk : List Byte} {yytext : List Byte} : .packet yytext ∉ junk.map junkToken := by
    intro hmem
    obtain ⟨b, -, hb⟩ := List.mem_map.mp hmem
    have hrecognised := junkToken_recognised b
    rw [hb] at hrecognised
    cases hrecognised
  have hfirst : acceptedLocals ds = [] := by
    refine hnone hdamaged fun yytext hmem => ?_
    obtain ⟨y, hy, hin⟩ := List.mem_flatMap.mp hmem
    obtain ⟨hwell, hbad⟩ := hx.damaged y hy
    rcases List.mem_append.mp hin with hin | hin
    · exact absurd hin hjunk
    · cases List.mem_singleton.mp hin
      rw [accepted_packetText hwell.packet.two]
      exact decide_eq_false hbad
  have hjs' : acceptedLocals js = [] := hnone hjs fun yytext hmem => absurd hmem hjunk
  have hlast : acceptedLocals rest = [] := by
    refine hnone hrest fun yytext hmem => ?_
    rcases List.mem_append.mp hmem with hin | hin
    · cases List.eq_of_mem_replicate hin
    · cases List.eq_of_mem_replicate hin
  have hone : acceptedLocals [a] = [a.locals] := by
    have haccepted : a.accepted? = some a.locals := by
      rw [Arrival.accepted?, ha]
      exact if_pos (by rw [accepted_packetText hpacket.packet.two]; exact decide_eq_true hgood)
    exact List.filterMap_cons_some haccepted
  refine ⟨a.locals, ?_⟩
  rw [acceptedLocals_append, acceptedLocals_append, acceptedLocals_append, hfirst, hjs', hone,
    hlast]
  rfl

/-- One packet of each exchange of a session. -/
theorem acceptedLocals_length {xs : List Exchange} {rs : List Request}
    (hxs : List.Forall₂ (Exchange.Carries cfg) xs rs)
    (has : as.map Arrival.token = xs.flatMap Exchange.tokens) :
    (acceptedLocals as).length = rs.length := by
  induction hxs generalizing as with
  | nil =>
      cases List.map_eq_nil_iff.mp has
      rfl
  | cons hx _ ih =>
      rw [List.flatMap_cons] at has
      obtain ⟨bs, cs, rfl, hbs, hcs⟩ := List.map_eq_append_iff.mp has
      obtain ⟨u, hu⟩ := acceptedLocals_exchange hx hbs
      rw [acceptedLocals_append, hu, List.singleton_append, List.length_cons, ih hcs,
        List.length_cons]

/-- **A session.** -/
theorem acts_session {xs : List Exchange} {rs : List Request} {t' : Target}
    {replies : List (List Byte)} (hxs : List.Forall₂ (Exchange.Carries cfg) xs rs)
    (has : as.map Arrival.token = xs.flatMap Exchange.tokens)
    (hserved : Served cfg rs (acceptedLocals as) g.target replies t') :
    ∃ g', Acts cfg as g (List.zipWith Exchange.answer xs replies).flatten g' ∧ g'.target = t' := by
  induction hxs generalizing as g replies with
  | nil =>
      cases List.map_eq_nil_iff.mp has
      cases hserved
      exact ⟨g, acts_nil cfg g, rfl⟩
  | @cons x r xs rs hx _ ih =>
      rw [List.flatMap_cons] at has
      obtain ⟨bs, cs, rfl, hbs, hcs⟩ := List.map_eq_append_iff.mp has
      obtain ⟨u, hu⟩ := acceptedLocals_exchange hx hbs
      rw [acceptedLocals_append, hu, List.singleton_append] at hserved
      cases hserved with
      | @cons _ _ _ _ _ t₁ _ reply replies hfirst hrest =>
          have hexchange := acts_exchange hx hbs hu hfirst
          obtain ⟨g', hacts, htarget⟩ := ih (g := (g.withTarget t₁).replied reply) hcs hrest
          exact ⟨g', hexchange.append hacts, htarget⟩

/-- The scanner's run over a session. -/
theorem yylex_session {xs : List Exchange} {rs : List Request} {t' : Target}
    {replies : List (List Byte)} (hxs : List.Forall₂ (Exchange.Carries cfg) xs rs)
    (has : as.map Arrival.token = scannerTokens (xs.flatMap Exchange.bytes))
    (hserved : Served cfg rs (acceptedLocals as) g.target replies t') :
    ∃ g' es, Runs shown (actAll cfg as 0) g (.ok 0) g' es ∧
      Runs shown (yylex cfg as) g (.ok ()) g' es ∧ g'.target = t' ∧
      sends es = (List.zipWith Exchange.answer xs replies).flatten := by
  rw [scannerTokens_session hxs] at has
  obtain ⟨g', ⟨es, hrun, hsends⟩, htarget⟩ := acts_session hxs has hserved
  refine ⟨g', es, hrun, ?_, htarget, hsends⟩
  -- the error buffer is empty when the input ends
  rw [yylex_eq]
  exact hrun.okBindQuiet ((handleError_runs g' 0).okBindQuiet (Runs.okPure _ _ g'))

end

end Armator
