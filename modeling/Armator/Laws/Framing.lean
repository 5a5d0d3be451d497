import Armator.Semantics.Session

set_option autoImplicit false

/-! # Framing

What `gdb_send_buffer` frames, the scanner delivers and `gdb_packet_analysis` dispatches
(`frame_decoded`). A packet whose digits are not its checksum has no effect, and changing one
character of a packet makes one (`corrupted_rejected`). Garbage in front of a packet does not
hide it (`scanner_resynchronises`).
-/

namespace Armator

open Logged CString

/-! ## Checksums -/

/-- The sum modulo 256. -/
theorem checksum_toNat (p : List Byte) :
    (checksum p).toNat = (p.map BitVec.toNat).sum % 256 := by
  have hfold : ∀ (p : List Byte) (acc : Byte),
      (p.foldl (· + ·) acc).toNat = (acc.toNat + (p.map BitVec.toNat).sum) % 256 := by
    intro p
    induction p with
    | nil =>
        intro acc
        have hacc : acc.toNat < 256 := acc.isLt
        simp only [List.foldl_nil, List.map_nil, List.sum_nil, Nat.add_zero]
        omega
    | cons b p ih =>
        intro acc
        have hadd : (acc + b).toNat = (acc.toNat + b.toNat) % 256 := BitVec.toNat_add acc b
        calc ((b :: p).foldl (· + ·) acc).toNat
            = ((acc + b).toNat + (p.map BitVec.toNat).sum) % 256 := ih (acc + b)
          _ = (acc.toNat + (b.toNat + (p.map BitVec.toNat).sum)) % 256 := by omega
          _ = (acc.toNat + ((b :: p).map BitVec.toNat).sum) % 256 := by
              rw [List.map_cons, List.sum_cons]
  rw [checksum, hfold]
  simp

/-- Another character makes another checksum. -/
theorem checksum_ne {p₁ p₂ : List Byte} {b c : Byte} (h : b ≠ c) :
    (checksum (p₁ ++ b :: p₂)).toNat ≠ (checksum (p₁ ++ c :: p₂)).toNat := by
  intro heq
  have hb : b.toNat < 256 := b.isLt
  have hc : c.toNat < 256 := c.isLt
  simp only [checksum_toNat, List.map_append, List.map_cons, List.sum_append, List.sum_cons] at heq
  exact h (BitVec.eq_of_toNat_eq (by omega))

/-! ## Round trip -/

theorem frameEvents_bound {p : List Byte} (hlength : p.length ≤ 1019) {k n : Nat}
    (h : GdbEvent.store k n ∈ frameEvents p) : k + n ≤ MAX_PACKET_SIZE := by
  have hreply : GdbEvent.store k n ∈ replyEvents [p] :=
    List.mem_append_right _ (by rwa [List.flatten_singleton])
  have hbound := replyEvents_bound hreply
  rw [List.flatten_singleton] at hbound
  exact hbound.trans (Nat.add_le_add_right hlength 5)

/-- **What is framed is dispatched.** The frame of `p` is one token of the scanner. Its checksum is
found to be right: it is acknowledged, and the handler of the first character of `p` is called with
the rest of `p` as a string. Without a handler the reply is empty, as it is for the empty payload. -/
theorem frame_decoded (cfg : GdbConfig) (u : GdbLocals) (g : Gdb) (p rest v behind : List Byte)
    (hp : ∀ b ∈ p, b ≠ 0 ∧ b ≠ chr '$' ∧ b ≠ chr '#') (hlength : p.length ≤ 1019)
    (hbuffer : g.packet.drop g.buffer = p ++ 0 :: rest) :
    ((gdbSendBuffer g).value = .ok () ∧ sends (gdbSendBuffer g).events = [frame p] ∧
      ∀ k n, .store k n ∈ (gdbSendBuffer g).events → k + n ≤ MAX_PACKET_SIZE) ∧
    scannerTokens (frame p ++ v) = .packet (frame p) :: scannerTokens v ∧
    gdbPacketAnalysis cfg u (frame p ++ 0 :: behind) (frame p).length = (do
      gdbSendAck
      match handler (p.headD 0) with
      | some command => command.run cfg u (argument p (hex2 (checksum p)) behind)
      | none => gdbSendData []) ∧
    (p ≠ [] → cstring (argument p (hex2 (checksum p)) behind) = p.tail) ∧
    (p = [] → handler (p.headD 0) = none) := by
  have hpacket : IsPacket p (hex2 (checksum p)) := ⟨fun b hb => (hp b hb).2, isHex_hex2 _, rfl⟩
  have hnul : ∀ b ∈ p, b ≠ 0 := fun b hb => (hp b hb).1
  rw [g.buffer_eq] at hbuffer
  have hsend := gdbSendBuffer_runs hnul hbuffer
  refine ⟨⟨hsend.value, ?_, ?_⟩, ?_, ?_, ?_, ?_⟩
  · rw [sends_of_runs hsend]
    rfl
  · intro k n hmem
    exact frameEvents_bound hlength (store_mem_of_runs hsend hmem)
  · exact scannerTokens_packet hpacket v
  · exact (seals_hex2 p).analysis cfg u behind
  · intro hne
    rw [argument_eq hne, cstring_append fun b hb => hnul b (List.mem_of_mem_tail hb)]
  · rintro rfl
    rfl

theorem frame_decoded_query :
    ((gdbSendBuffer ((idleGdb 64).withPacket (text ['$', '?'] ++ [0]))).value = .ok () ∧
      sends (gdbSendBuffer ((idleGdb 64).withPacket (text ['$', '?'] ++ [0]))).events
        = [frame [chr '?']] ∧
      ∀ k n, .store k n ∈ (gdbSendBuffer ((idleGdb 64).withPacket (text ['$', '?'] ++ [0]))).events →
        k + n ≤ MAX_PACKET_SIZE) ∧
    scannerTokens (frame [chr '?'] ++ [chr '+']) = .packet (frame [chr '?']) :: scannerTokens [chr '+'] ∧
    gdbPacketAnalysis littleEndian zeroLocals (frame [chr '?'] ++ 0 :: []) (frame [chr '?']).length
      = (do
        gdbSendAck
        match handler ([chr '?'].headD 0) with
        | some command =>
          command.run littleEndian zeroLocals (argument [chr '?'] (hex2 (checksum [chr '?'])) [])
        | none => gdbSendData []) ∧
    ([chr '?'] ≠ [] → cstring (argument [chr '?'] (hex2 (checksum [chr '?'])) []) = [chr '?'].tail) ∧
    ([chr '?'] = [] → handler ([chr '?'].headD 0) = none) :=
  frame_decoded littleEndian zeroLocals _ [chr '?'] [] [chr '+'] [] (by decide) (by decide) rfl

/-! ## Corruption -/

/-- A text of the packet rule whose digits are not the sum of its payload modulo 256. -/
def Corrupted (w : List Byte) : Prop :=
  matchesPacket w = true ∧ ∃ p ds, w = packetText p ds ∧ ds.length = 2 ∧
    valueIn 16 ds ≠ (p.map BitVec.toNat).sum % 256

/-- **A corrupted packet is refused and has no effect, and any change of one character of a
good packet makes one.** -/
theorem corrupted_rejected (cfg : GdbConfig) (u : GdbLocals) (g : Gdb) (behind : List Byte) :
    (∀ w, Corrupted w →
      gdbPacketAnalysis cfg u (w ++ 0 :: behind) w.length g = ⟨.ok (), g, [.send [chr '-']]⟩) ∧
    ∀ p₁ p₂ ds b c, IsPacket (p₁ ++ c :: p₂) ds →
      valueIn 16 ds = ((p₁ ++ c :: p₂).map BitVec.toNat).sum % 256 →
      b ≠ c → b ≠ chr '$' → b ≠ chr '#' → Corrupted (packetText (p₁ ++ b :: p₂) ds) := by
  constructor
  · rintro w ⟨hmatch, p, ds, rfl, htwo, hbad⟩
    have hp := isPacket_of_matches hmatch htwo
    have hchecksum : ¬ GoodChecksum p ds := by
      rw [GoodChecksum, checksum_toNat]
      exact hbad
    rw [packetText_eq_requestBlock, hp.length, gdbPacketAnalysis_eq behind cfg u hp.hex hp.two,
      if_neg hchecksum]
    rfl
  · intro p₁ p₂ ds b c hp hsum hne hdollar hhash
    have hpacket : IsPacket (p₁ ++ b :: p₂) ds := by
      refine ⟨fun a ha => ?_, hp.hex, hp.two⟩
      rcases List.mem_append.mp ha with hfirst | hrest
      · exact hp.body a (List.mem_append_left _ hfirst)
      · rcases List.mem_cons.mp hrest with rfl | hsecond
        · exact ⟨hdollar, hhash⟩
        · exact hp.body a (List.mem_append_right _ (List.mem_cons_of_mem c hsecond))
    refine ⟨matchesPacket_iff.mpr ⟨_, _, rfl, hpacket⟩, _, _, rfl, hp.two, ?_⟩
    · rw [hsum, ← checksum_toNat, ← checksum_toNat]
      exact checksum_ne (Ne.symm hne)

/-- A payload of one character, changed. -/
theorem corrupted_rejected_status :
    Corrupted (packetText [chr '!'] (hex2 (checksum [chr '?']))) ∧
      gdbPacketAnalysis littleEndian zeroLocals
          (packetText [chr '!'] (hex2 (checksum [chr '?'])) ++ [0]) 5 (idleGdb 64)
        = ⟨.ok (), idleGdb 64, [.send [chr '-']]⟩ := by
  have hlaw := corrupted_rejected littleEndian zeroLocals (idleGdb 64) []
  have hcorrupted := hlaw.2 [] [] (hex2 (checksum [chr '?'])) (chr '!') (chr '?')
    ⟨by decide, isHex_hex2 _, rfl⟩ (by decide) (by decide) (by decide) (by decide)
  exact ⟨hcorrupted, hlaw.1 _ hcorrupted⟩

/-! ## Resynchronisation -/

/-- **A packet is a token whatever stands in front of it and behind it, and a `$` is nowhere
but at the start of a token.** The action of the token hands the packet to `gdb_packet_analysis`,
behind the text that is still in the error buffer. -/
theorem scanner_resynchronises (u v p ds : List Byte) (h : IsPacket p ds) :
    (∃ before, scannerTokens (u ++ packetText p ds ++ v)
        = before ++ .packet (packetText p ds) :: scannerTokens v ∧
      (before.map ScannerToken.text).flatten = u) ∧
    (∀ cfg locals behind len, (ScannerToken.packet (packetText p ds)).act cfg locals behind len = (do
      let len ← handleError len
      gdbPacketAnalysis cfg locals (packetText p ds ++ 0 :: behind) (packetText p ds).length
      return len)) ∧
    ∀ input, ∀ t ∈ scannerTokens input, chr '$' ∉ t.text.tail :=
  ⟨scannerTokens_sync h u v, fun _ _ _ _ => rfl, scannerTokens_dollar⟩

/-- A packet behind one that broke off. -/
theorem scanner_resynchronises_truncated :
    (∃ before, scannerTokens (text ['$', 'a', '#', '1'] ++ packetText [chr '?'] (text ['3', 'f']) ++
          [chr '+'])
        = before ++ .packet (packetText [chr '?'] (text ['3', 'f'])) :: scannerTokens [chr '+'] ∧
      (before.map ScannerToken.text).flatten = text ['$', 'a', '#', '1']) ∧
    (∀ cfg locals behind len,
      (ScannerToken.packet (packetText [chr '?'] (text ['3', 'f']))).act cfg locals behind len = (do
        let len ← handleError len
        gdbPacketAnalysis cfg locals (packetText [chr '?'] (text ['3', 'f']) ++ 0 :: behind)
          (packetText [chr '?'] (text ['3', 'f'])).length
        return len)) ∧
    ∀ input, ∀ t ∈ scannerTokens input, chr '$' ∉ t.text.tail :=
  scanner_resynchronises _ _ _ _ ⟨by decide, by decide, rfl⟩

end Armator
