import Armator.Gdb.Scanner
import Armator.Semantics.Request

set_option autoImplicit false

/-! # What the scanner delivers

A packet is the one thing the scanner takes where it begins (`scannerTokens_packet`), and a
'$' only ever begins a token, so that garbage in front of a packet cannot hide it
(`scannerTokens_sync`).
-/

namespace Armator

open Logged CString

/-! ## Packets -/

/-- The text of a packet with the payload `p` and the checksum digits `ds`. -/
def packetText (p ds : List Byte) : List Byte := chr '$' :: p ++ chr '#' :: ds

/-- `p` and `ds` are what the packet rule asks for. -/
structure IsPacket (p ds : List Byte) : Prop where
  body : ∀ b ∈ p, b ≠ chr '$' ∧ b ≠ chr '#'
  hex : IsHex ds
  two : ds.length = 2

section

variable {p ds w : List Byte}

theorem packetText_length (p ds : List Byte) :
    (packetText p ds).length = p.length + ds.length + 2 := by
  rw [packetText, List.length_append, List.length_cons, List.length_cons]
  omega

theorem IsPacket.length (h : IsPacket p ds) : (packetText p ds).length = p.length + 4 := by
  rw [packetText_length, h.two]

theorem packetText_eq_requestBlock (p ds behind : List Byte) :
    packetText p ds ++ 0 :: behind = requestBlock p ds behind := by
  simp [packetText, requestBlock]

/-- `ds` are the two digits of the checksum of `p`. -/
structure Seals (ds p : List Byte) : Prop where
  hex : IsHex ds
  two : ds.length = 2
  good : GoodChecksum p ds

theorem seals_hex2 (p : List Byte) : Seals (hex2 (checksum p)) p :=
  ⟨isHex_hex2 _, rfl, valueIn_hex2 _⟩

theorem Seals.analysis (h : Seals ds p) (cfg : GdbConfig) (u : GdbLocals) (behind : List Byte) :
    gdbPacketAnalysis cfg u (packetText p ds ++ 0 :: behind) (packetText p ds).length = (do
      gdbSendAck
      dispatch cfg u (p.headD 0) (argument p ds behind)) := by
  rw [packetText_length, h.two, packetText_eq_requestBlock,
    gdbPacketAnalysis_good behind cfg u h.hex h.two h.good]

theorem Seals.runs {cfg : GdbConfig} {u : GdbLocals} {behind : List Byte} {g g' : Gdb}
    {r : Except Fault Unit} {es : List GdbEvent} (hseal : Seals ds p)
    (h : Runs shown (dispatch cfg u (p.headD 0) (argument p ds behind)) g r g' es) :
    Runs shown (gdbPacketAnalysis cfg u (packetText p ds ++ 0 :: behind) (packetText p ds).length)
      g r g' (.send [chr '+'] :: es) := by
  rw [hseal.analysis]
  exact (gdbEmit_runs g rfl).okBind h

/-- The rule matches the packets. -/
theorem matchesPacket_iff :
    matchesPacket w = true ↔ ∃ p ds, w = packetText p ds ∧ IsPacket p ds := by
  constructor
  · intro hmatch
    cases w with
    | nil => cases hmatch
    | cons d w =>
        rw [matchesPacket] at hmatch
        split at hmatch
        · rename_i h x y hdrop
          simp only [Bool.and_eq_true, decide_eq_true_eq, List.all_eq_true, ne_eq] at hmatch
          obtain ⟨⟨⟨⟨hd, hbody⟩, hhash⟩, hx⟩, hy⟩ := hmatch
          have hsplit := List.take_append_drop (w.length - 3) w
          rw [hdrop] at hsplit
          refine ⟨w.take (w.length - 3), [x, y], ?_, hbody, ?_, rfl⟩
          · rw [packetText, List.cons_append, ← hhash, hsplit, hd]
          · intro b hb
            rcases List.mem_pair.mp hb with rfl | rfl
            · exact hx
            · exact hy
        · cases hmatch
  · rintro ⟨p, ds, rfl, hbody, hhex, htwo⟩
    obtain ⟨x, y, rfl⟩ := List.length_eq_two.mp htwo
    have hlength : (p ++ [chr '#', x, y]).length - 3 = p.length := by
      rw [List.length_append]
      rfl
    rw [packetText, List.cons_append, matchesPacket]
    simp only [hlength, List.take_left, List.drop_left, Bool.and_eq_true, decide_eq_true_eq,
      List.all_eq_true, ne_eq]
    exact ⟨⟨⟨⟨trivial, hbody⟩, trivial⟩, hhex x (by simp)⟩, hhex y (by simp)⟩

/-- The payload ends at the first '#'. -/
theorem takeWhile_packetText (hbody : ∀ b ∈ p, b ≠ chr '#') (ds v : List Byte) :
    ((packetText p ds ++ v).tail).takeWhile (· ≠ chr '#') = p := by
  have htail : (packetText p ds ++ v).tail = p ++ chr '#' :: (ds ++ v) := by simp [packetText]
  rw [htail, List.takeWhile_append_of_pos (by simpa using hbody)]
  simp

/-- Two characters behind the last '#' are the checksum. -/
theorem isPacket_of_matches (hmatch : matchesPacket (packetText p ds) = true)
    (htwo : ds.length = 2) : IsPacket p ds := by
  obtain ⟨p', ds', htext, hp'⟩ := matchesPacket_iff.mp hmatch
  have hlength : (chr '#' :: ds).length = (chr '#' :: ds').length := by
    rw [List.length_cons, List.length_cons, htwo, hp'.two]
  obtain ⟨hbody, hdigits⟩ := List.append_inj' htext hlength
  cases hbody
  cases hdigits
  exact hp'

theorem packetText_notMem (h : IsPacket p ds) : chr '$' ∉ (packetText p ds).tail := by
  have hhash : chr '$' ≠ chr '#' := by decide
  have htail : (packetText p ds).tail = p ++ chr '#' :: ds := rfl
  rw [htail]
  intro hmem
  rcases List.mem_append.mp hmem with hp | hmem
  · exact (h.body _ hp).1 rfl
  · rcases List.mem_cons.mp hmem with heq | hds
    · exact hhash heq
    · exact (noDelimiter_of_isHexDigit (h.hex _ hds)).frame.1 rfl

end

/-! ## The rules -/

section

variable {p ds v w : List Byte}

/-- A word of the rules is a packet or one character. -/
theorem scannerRule_cases (h : (Lexer.firstRule scannerRules w).isSome) :
    w.length = 1 ∨ matchesPacket w = true := by
  have hmem : ∃ r ∈ scannerRules, r w = true := by
    rw [Lexer.firstRule, List.findIdx?_isSome] at h
    exact List.any_eq_true.mp h
  obtain ⟨r, hr, hw⟩ := hmem
  simp only [scannerRules, List.mem_cons, List.not_mem_nil, or_false] at hr
  rcases hr with rfl | rfl | rfl | rfl
  · rw [of_decide_eq_true hw]
    exact .inl rfl
  · rw [of_decide_eq_true hw]
    exact .inl rfl
  · exact .inr hw
  · rw [matchesChar, Bool.and_eq_true, decide_eq_true_eq] at hw
    exact .inl hw.1

theorem onlyFirst_dollar : Lexer.OnlyFirst scannerRules (chr '$') := by
  intro w hw
  rcases scannerRule_cases hw with hone | hpacket
  · obtain ⟨c, rfl⟩ := List.length_eq_one_iff.mp hone
    simp
  · obtain ⟨p, ds, rfl, hp⟩ := matchesPacket_iff.mp hpacket
    exact packetText_notMem hp

theorem firstRule_packet (h : IsPacket p ds) :
    Lexer.firstRule scannerRules (packetText p ds) = some 2 := by
  have hlength : (packetText p ds).length ≠ 1 := by
    rw [h.length]
    omega
  have hne (c : Byte) : packetText p ds ≠ [c] := fun heq => hlength (by rw [heq]; rfl)
  have hmatch : matchesPacket (packetText p ds) = true := matchesPacket_iff.mpr ⟨p, ds, rfl, h⟩
  rw [Lexer.firstRule, scannerRules, List.findIdx?_cons, List.findIdx?_cons, List.findIdx?_cons,
    if_neg (by simpa using hne _), if_neg (by simpa using hne _), if_pos hmatch]
  rfl

/-- Nothing longer than a packet is matched where it begins. -/
theorem firstRule_beyond_packet (h : IsPacket p ds) {k : Nat}
    (hk : (packetText p ds).length < k) (hle : k ≤ (packetText p ds ++ v).length) :
    Lexer.firstRule scannerRules ((packetText p ds ++ v).take k) = none := by
  by_contra hsome
  have htake : (packetText p ds ++ v).take k
      = packetText p ds ++ v.take (k - (packetText p ds).length) := by
    rw [List.take_append, List.take_of_length_le (Nat.le_of_lt hk)]
  have hlength : ((packetText p ds ++ v).take k).length = k := by
    rw [List.length_take, Nat.min_eq_left hle]
  have hpos := h.length
  rcases scannerRule_cases (Option.isSome_iff_ne_none.mpr hsome) with hone | hpacket
  · omega
  · obtain ⟨p', ds', htext, hp'⟩ := matchesPacket_iff.mp hpacket
    -- both packets end two digits behind the first '#'
    have hfirst := takeWhile_packetText (fun b hb => (h.body b hb).2) ds
      (v.take (k - (packetText p ds).length))
    have hsecond := takeWhile_packetText (fun b hb => (hp'.body b hb).2) ds' []
    rw [← htake, htext] at hfirst
    rw [List.append_nil, hfirst] at hsecond
    have hlength' := hp'.length
    rw [← htext, hlength, ← hsecond] at hlength'
    omega

/-- **A packet is one token.** -/
theorem scannerTokens_packet (h : IsPacket p ds) (v : List Byte) :
    scannerTokens (packetText p ds ++ v) = .packet (packetText p ds) :: scannerTokens v := by
  have hne : packetText p ds ≠ [] := List.cons_ne_nil _ _
  have hnext : Lexer.next scannerRules (packetText p ds ++ v) = (some 2, packetText p ds) :=
    Lexer.next_eq hne (firstRule_packet h) fun k hk hle => firstRule_beyond_packet h hk hle
  rw [scannerTokens, Lexer.tokenize_append hne hnext]
  rfl

/-! ## Texts -/

/-- What a token was made of. -/
def ScannerToken.text : ScannerToken → List Byte
  | .ack => [chr '+']
  | .retransmission => [chr '-']
  | .packet yytext => yytext
  | .char c => [c]
  | .echo c => [c]

/-- A token keeps the text that the lexer matched. -/
theorem ScannerToken.of_text {t : Lexer.Token Byte} (h : Lexer.IsToken scannerRules t) :
    (ScannerToken.of t).text = t.2 := by
  have hone {w : List Byte} (hw : w.length = 1) : [w.headD 0] = w := by
    obtain ⟨c, rfl⟩ := List.length_eq_one_iff.mp hw
    rfl
  rcases t with ⟨_ | i, w⟩
  · exact hone h
  · have hfirst : Lexer.firstRule scannerRules w = some i := h
    obtain ⟨hi, hw, -⟩ := List.findIdx?_eq_some_iff_getElem.mp hfirst
    match i with
    | 0 => exact (of_decide_eq_true hw).symm
    | 1 => exact (of_decide_eq_true hw).symm
    | 2 => rfl
    | 3 =>
        have hmatch : matchesChar w = true := hw
        rw [matchesChar, Bool.and_eq_true, decide_eq_true_eq] at hmatch
        exact hone hmatch.1
    | i + 4 => exact absurd hi (Nat.not_lt.mpr (Nat.le_add_left 4 i))

/-- **No token has a '$' but at its start.** -/
theorem scannerTokens_dollar (input : List Byte) :
    ∀ t ∈ scannerTokens input, chr '$' ∉ t.text.tail := by
  intro t ht
  obtain ⟨token, htoken, rfl⟩ := List.mem_map.mp ht
  have hshape := Lexer.tokenize_isToken scannerRules input token htoken
  rw [ScannerToken.of_text hshape]
  exact hshape.notMem onlyFirst_dollar

/-- The texts of tokens, one behind the other. -/
theorem texts_of {ts : List (Lexer.Token Byte)} (h : ∀ t ∈ ts, Lexer.IsToken scannerRules t) :
    ((ts.map ScannerToken.of).map ScannerToken.text) = ts.map Prod.snd := by
  rw [List.map_map]
  exact List.map_congr_left fun t ht => ScannerToken.of_text (h t ht)

/-- **Whatever stands in front of a packet, the packet is a token.** -/
theorem scannerTokens_sync (h : IsPacket p ds) (u v : List Byte) :
    ∃ ts, scannerTokens (u ++ packetText p ds ++ v)
        = ts ++ .packet (packetText p ds) :: scannerTokens v ∧
      (ts.map ScannerToken.text).flatten = u := by
  have hinput : u ++ packetText p ds ++ v = u ++ chr '$' :: (p ++ chr '#' :: ds ++ v) := by
    simp [packetText]
  obtain ⟨ts, hts, hflat⟩ := Lexer.tokenize_sync onlyFirst_dollar u (p ++ chr '#' :: ds ++ v)
  have hshape : ∀ t ∈ ts, Lexer.IsToken scannerRules t := fun t ht =>
    Lexer.tokenize_isToken scannerRules (u ++ chr '$' :: (p ++ chr '#' :: ds ++ v)) t
      (by rw [hts]; exact List.mem_append_left _ ht)
  refine ⟨ts.map ScannerToken.of, ?_, ?_⟩
  · rw [scannerTokens, hinput, hts, List.map_append, ← scannerTokens_packet h v]
    rfl
  · rw [texts_of hshape, hflat]

end

end Armator
