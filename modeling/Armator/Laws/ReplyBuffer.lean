import Armator.Semantics.Session

set_option autoImplicit false

/-! # The reply buffer

Replies are built in the 1024 characters of `gdb->packet`, and `-` sends what is there again.
A memory dump of 510 bytes does not fit (`bufferLaw_iff`). In a session without such dumps every
retransmission is the last reply (`retransmission_last`).
-/

namespace Armator

open Logged CString

/-! ## The bound -/

/-- What `o` stored is inside `gdb->packet`, and the fields behind it are in order. -/
structure BufferLaw (o : Outcome Gdb GdbEvent (Except Fault Unit)) : Prop where
  stores : ∀ k n, GdbEvent.store k n ∈ o.events → k + n ≤ MAX_PACKET_SIZE
  buffer : o.state.buffer = 1
  len : o.state.len ≤ 1023

section

variable {cfg : GdbConfig} {u : GdbLocals} {p ds behind : List Byte} {g : Gdb}

/-- A short reply, or none, keeps the length within its bound. -/
theorem Answer.len {m : GdbM Unit} (h : Answer g m fun n => n + 5 ≤ MAX_PACKET_SIZE)
    (hlen : g.len ≤ 1023) : (m g).state.len ≤ 1023 := by
  cases h with
  | reply c exception ts es silent bounded runs =>
      rw [runs.state, Gdb.replied_len]
      simp only [MAX_PACKET_SIZE] at bounded
      omega
  | nothing es silent runs =>
      rw [runs.state]
      exact hlen
  | fault f c exception es silent runs =>
      rw [runs.state]
      exact hlen

/-- A dump sets the length. -/
theorem dump_len (hhex : IsHex ds) (hlength : ds.length = 2) (hgood : GoodChecksum p ds)
    (hm : p.headD 0 = chr 'm') :
    (gdbPacketAnalysis cfg u (requestBlock p ds behind) (p.length + 4) g).state.len
      = (dumpText u (argument p ds behind) g.mem).length + 4 := by
  have hdispatch : dispatch cfg u (p.headD 0) (argument p ds behind)
      = readMemory u (argument p ds behind) := by
    rw [hm]
    rfl
  calc (gdbPacketAnalysis cfg u (requestBlock p ds behind) (p.length + 4) g).state.len
      = (readMemory u (argument p ds behind) g).state.len := by
        rw [gdbPacketAnalysis_state behind cfg u g hhex hlength hgood, hdispatch]
    _ = (g.replied (dumpText u (argument p ds behind) g.mem)).len := by
        rw [(readMemory_runs u (argument p ds behind) g).state]
    _ = (dumpText u (argument p ds behind) g.mem).length + 4 := Gdb.replied_len _ _

/-- **The reply buffer is respected exactly by the requests that dump fewer than 510 bytes.** -/
theorem bufferLaw_iff (cfg : GdbConfig) (u : GdbLocals) (p ds behind : List Byte) (g : Gdb)
    (hhex : IsHex ds) (hlength : ds.length = 2) (hgood : GoodChecksum p ds)
    (hlen : g.len ≤ 1023) :
    BufferLaw (gdbPacketAnalysis cfg u (requestBlock p ds behind) (p.length + 4) g) ↔
      (p.head? = some (chr 'm') → ShortDump u (argument p ds behind) g.mem) := by
  rw [head?_eq_some_iff (by decide)]
  constructor
  · intro hlaw hm
    have hbound := hlaw.len
    rw [dump_len hhex hlength hgood hm] at hbound
    exact dumpText_length_lt.mp (by omega)
  · intro hshort
    have hackStores : StoresInside gdbSendAck := storesInside_gdbEmit (.inr ⟨_, rfl⟩)
    have hanswer := dispatch_answer_short cfg u (p.headD 0) (argument p ds behind) g hshort
    refine ⟨fun k n hmem => ?_, Gdb.buffer_eq _, ?_⟩
    · rw [gdbPacketAnalysis_good behind cfg u hhex hlength hgood] at hmem
      rcases mem_events_bind hmem with hfirst | ⟨-, -, hsecond⟩
      · exact hackStores g k n hfirst
      · exact hanswer.storesInside hsecond
    · rw [gdbPacketAnalysis_state behind cfg u g hhex hlength hgood]
      exact hanswer.len hlen

end

theorem bufferLaw_iff_status :
    BufferLaw (gdbPacketAnalysis littleEndian zeroLocals
        (requestBlock [chr '?'] (hex2 (checksum [chr '?'])) []) 5 (idleGdb 64)) ↔
      ([chr '?'].head? = some (chr 'm') → ShortDump zeroLocals
        (argument [chr '?'] (hex2 (checksum [chr '?'])) []) (idleGdb 64).mem) :=
  bufferLaw_iff _ _ _ _ _ _ (isHex_hex2 _) (by decide) (by decide) (by decide)

/-- The request for the first 510 bytes. -/
def longDumpRequest : List Byte := text ['m', '0', ',', '1', 'f', 'e']

theorem not_bufferLaw_dump :
    ¬ BufferLaw (gdbPacketAnalysis littleEndian zeroLocals
      (requestBlock longDumpRequest (hex2 (checksum longDumpRequest)) [])
      (longDumpRequest.length + 4) (idleGdb 1024)) := by
  intro hlaw
  have hgood : GoodChecksum longDumpRequest (hex2 (checksum longDumpRequest)) := valueIn_hex2 _
  have hhead : longDumpRequest.headD 0 = chr 'm' := rfl
  have hrange : givenRange zeroLocals
      (argument longDumpRequest (hex2 (checksum longDumpRequest)) []) = (0, 510) := by decide
  have hsize : (idleGdb 1024).mem.size = 1024 := rfl
  have hbound := hlaw.len
  rw [dump_len (isHex_hex2 _) rfl hgood hhead] at hbound
  rcases dumpText_length_lt.mp (Nat.lt_of_add_lt_add_right (Nat.lt_succ_of_le hbound)) with
    hshort | ⟨i, hi, hbeyond⟩
  · rw [hrange] at hshort
    exact absurd hshort (by decide)
  · -- the memory is longer than the dump
    have haddress : ((0, 510) : BitVec 32 × BitVec 32).1 + BitVec.ofNat 32 i
        = BitVec.ofNat 32 i := BitVec.zero_add _
    rw [hrange, hsize, haddress, BitVec.toNat_ofNat] at hbeyond
    omega

/-! ## Retransmission -/

section

variable (cfg : GdbConfig) (u : GdbLocals) (behind : List Byte) (g : Gdb)

theorem actRetransmission_runs (len : Nat) :
    Runs shown (ScannerToken.retransmission.act cfg u behind len) g (.ok 0) g
      (flushEvents len ++ [.send (g.packet.take g.len)]) :=
  (handleError_runs g len).okBind ((gdbTransmitPacket_runs g).okBindQuiet (Runs.okPure _ _ g))

/-- Each '-' is answered with the same bytes. -/
theorem retransmissions_runs {retries : List Arrival}
    (h : ∀ a ∈ retries, a.token = .retransmission) :
    Runs shown (actAll cfg retries 0) g (.ok 0) g
      (List.replicate retries.length (.send (g.packet.take g.len))) := by
  induction retries with
  | nil => exact Runs.okPure _ _ g
  | cons a as ih =>
      obtain ⟨htoken, hrest⟩ := List.forall_mem_cons.mp h
      rw [actAll, htoken]
      exact (actRetransmission_runs cfg a.locals a.behind g 0).okBind (ih hrest)

end

/-- **Every `-` is answered with the last reply of the session.** -/
theorem retransmission_last (cfg : GdbConfig) (arm : ArmCore) (storage : List Byte)
    (arrivals : List Arrival) (a : Arrival) (retries : List Arrival) (len : Nat)
    (hfits : ∀ b ∈ arrivals, b.Fits)
    (hlen : (actAll cfg arrivals 0 (gdbInitData arm storage)).value = .ok len)
    (hretries : ∀ b ∈ a :: retries, b.token = .retransmission) :
    let o := actAll cfg arrivals 0 (gdbInitData arm storage)
    let o' := actAll cfg (a :: retries) len o.state
    o'.value = .ok 0 ∧ o'.state = o.state ∧
      sends o'.events = (if len = 0 then [] else [[chr '-']]) ++
        List.replicate (retries.length + 1) (lastReply o.events) ∧
      (lastReply o.events = [] ∨ ∃ p, lastReply o.events = frame p) ∧
      ∀ k n, .store k n ∈ o.events → k + n ≤ MAX_PACKET_SIZE := by
  intro o o'
  obtain ⟨htoken, hrest⟩ := List.forall_mem_cons.mp hretries
  -- nothing is sent before the session
  have hcurrent : Current o.state o.events :=
    keeps_actAll cfg arrivals 0 (gdbInitData arm storage) [] len hlen ⟨rfl, .inl rfl⟩
  have hrun : Runs shown (actAll cfg (a :: retries) len) o.state (.ok 0) o.state
      (flushEvents len ++ [.send (lastReply o.events)] ++
        List.replicate retries.length (.send (lastReply o.events))) := by
    have hfirst := actRetransmission_runs cfg a.locals a.behind o.state len
    have hothers := retransmissions_runs cfg o.state hrest
    rw [hcurrent.sent] at hfirst hothers
    rw [actAll, htoken]
    exact hfirst.okBind hothers
  have hflush : sends (flushEvents len) = if len = 0 then [] else [[chr '-']] := by
    unfold flushEvents
    split <;> rfl
  have hcopies (n : Nat) (bytes : List Byte) :
      sends (List.replicate n (.send bytes)) = List.replicate n bytes := by
    rw [sends, List.filterMap_replicate]
    rfl
  refine ⟨hrun.value, hrun.state, ?_, hcurrent.framed, storesInside_actAll cfg hfits 0 _⟩
  rw [sends_of_runs hrun, sends_append, sends_append, hflush, hcopies, List.append_assoc,
    List.replicate_succ]
  rfl

/-- A `-` after the reply to `?`. -/
theorem retransmission_last_status :
    let o := actAll littleEndian [⟨.packet (frame [chr '?']), zeroLocals, []⟩] 0 (idleGdb 64)
    let o' := actAll littleEndian [⟨.retransmission, zeroLocals, []⟩] 0 o.state
    o'.value = .ok 0 ∧ o'.state = o.state ∧
      sends o'.events = (if 0 = 0 then [] else [[chr '-']]) ++
        List.replicate (0 + 1) (lastReply o.events) ∧
      (lastReply o.events = [] ∨ ∃ p, lastReply o.events = frame p) ∧
      ∀ k n, .store k n ∈ o.events → k + n ≤ MAX_PACKET_SIZE :=
  retransmission_last littleEndian _ [] [⟨.packet (frame [chr '?']), zeroLocals, []⟩]
    ⟨.retransmission, zeroLocals, []⟩ [] 0
    (by
      intro b hb
      rw [List.mem_singleton.mp hb]
      exact ⟨[chr '?'], hex2 (checksum [chr '?']), rfl, ⟨by decide, isHex_hex2 _, rfl⟩,
        fun _ hm => absurd hm (by decide)⟩)
    rfl (by simp)

end Armator
