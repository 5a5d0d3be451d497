import Armator.Semantics.Arguments
import Armator.Semantics.Session

set_option autoImplicit false

/-! # Download and upload

What `X` writes, `m` reads back (`download_upload`): the escapes, the frame and the digits are
undone, and nothing else is written.
-/

namespace Armator

open Logged CString

/-! ## Memory -/

section

variable {mem : Memory} {address : BitVec 32} {d : List (BitVec 8)}

theorem Memory.stored_cons (mem : Memory) (address : BitVec 32) (b : BitVec 8)
    (d : List (BitVec 8)) :
    mem.stored address (b :: d) = (mem.set address b).stored (address + 1) d := rfl

theorem Memory.stored_size : (mem.stored address d).size = mem.size := by
  induction d generalizing mem address with
  | nil => rfl
  | cons b d ih => exact ih

theorem Memory.stored_isBigEndian : (mem.stored address d).isBigEndian = mem.isBigEndian := by
  induction d generalizing mem address with
  | nil => rfl
  | cons b d ih => exact ih

/-- Bytes that are not covered stay. -/
theorem Memory.stored_frame {i : Nat} (h : i ∉ covered address d.length) :
    (mem.stored address d).address i = mem.address i := by
  induction d generalizing mem address with
  | nil => rfl
  | cons b d ih =>
      rw [List.length_cons, covered_succ, List.mem_cons, not_or] at h
      rw [Memory.stored_cons, ih h.2]
      exact Function.update_of_ne h.1 _ _

/-- The next addresses do not come back to the first one. -/
theorem notMem_covered_next {n : Nat} (hn : n < 2 ^ 32 - 1) :
    address.toNat ∉ covered (address + 1) n := by
  intro hmem
  obtain ⟨k, hk, heq⟩ := mem_covered.mp hmem
  rw [next_add_ofNat, BitVec.toNat_add, BitVec.toNat_ofNat] at heq
  have hlt := address.isLt
  omega

/-- What is stored is dumped. -/
theorem Memory.dumped_stored (hinside : mem.Inside address d.length)
    (hlength : d.length < 2 ^ 32) : (mem.stored address d).dumped d.length address = d := by
  induction d generalizing mem address with
  | nil => rfl
  | cons b d ih =>
      rw [List.length_cons] at hlength
      have hsize : address.toNat + (d.length + 1) ≤ mem.size := hinside
      have hread : address.toNat ≤ (mem.stored address (b :: d)).size := by
        rw [Memory.stored_size]
        omega
      have hbyte : (mem.stored address (b :: d)).get address = b := by
        rw [Memory.stored_cons, Memory.get, Memory.stored_frame (notMem_covered_next (by omega))]
        exact Function.update_self _ _ _
      have hbehind : mem.Inside (address + 1) d.length := Memory.Inside.next hinside
      have hnext : (mem.set address b).Inside (address + 1) d.length := hbehind
      rw [List.length_cons, Memory.dumped, if_pos hread, hbyte, Memory.stored_cons,
        ih hnext (by omega)]

end

/-! ## The law -/

/-- `X<address>,<size>:<content>` -/
def downloadRequest (as ns e : List Byte) : List Byte :=
  chr 'X' :: (as ++ chr ',' :: (ns ++ chr ':' :: e))

/-- `m<address>,<size>` -/
def uploadRequest (as ns : List Byte) : List Byte := chr 'm' :: (as ++ chr ',' :: ns)

section

variable {cfg : GdbConfig} {u : GdbLocals} {g : Gdb} {address size : BitVec 32}
  {d e as ns ds behind : List Byte}

/-- Nothing in the request ends the packet. -/
theorem isPacket_downloadRequest (ha : Digits as address) (hn : Digits ns size)
    (he : Escaped d e) (hds : Seals ds (downloadRequest as ns e)) :
    IsPacket (downloadRequest as ns e) ds := by
  refine ⟨?_, hds.hex, hds.two⟩
  refine List.forall_mem_cons.mpr ⟨by decide, List.forall_mem_append.mpr ⟨ha.body, ?_⟩⟩
  refine List.forall_mem_cons.mpr ⟨by decide, List.forall_mem_append.mpr ⟨hn.body, ?_⟩⟩
  exact List.forall_mem_cons.mpr ⟨by decide, he.body⟩

theorem isPacket_uploadRequest (ha : Digits as address) (hn : Digits ns size)
    (hds : Seals ds (uploadRequest as ns)) : IsPacket (uploadRequest as ns) ds := by
  refine ⟨?_, hds.hex, hds.two⟩
  refine List.forall_mem_cons.mpr ⟨by decide, List.forall_mem_append.mpr ⟨ha.body, ?_⟩⟩
  exact List.forall_mem_cons.mpr ⟨by decide, hn.body⟩

/-- What `X` does of any content. -/
theorem downloadHandler_runs (ha : Digits as address) (hn : Digits ns (BitVec.ofNat 32 d.length))
    (he : Escaped d e) (hlength : d.length < 2 ^ 32) (haddress : address.toNat < g.mem.size) :
    ∃ es, Runs shown (writeMemoryBinary u (argument (downloadRequest as ns e) ds behind)) g (.ok ())
        ((g.withMem (g.mem.stored address d)).replied (text ['O', 'K'])) es ∧
      sends es = [frame (text ['O', 'K'])] := by
  have hdata : argument (downloadRequest as ns e) ds behind
      = as ++ chr ',' :: (ns ++ chr ':' :: (e ++ 0 :: (ds ++ 0 :: behind))) := by
    rw [downloadRequest, argument_eq (List.cons_ne_nil _ _)]
    simp
  have hcolon : EndsNumber (chr ':') := by decide
  have hrange := ha.givenRange u hn hcolon (e ++ 0 :: (ds ++ 0 :: behind))
  obtain ⟨o, hafter, hdrop⟩ := ha.content hn (e ++ 0 :: (ds ++ 0 :: behind))
  rw [hdata]
  generalize as ++ chr ',' :: (ns ++ chr ':' :: (e ++ 0 :: (ds ++ 0 :: behind))) = data
    at hrange hafter hdrop ⊢
  have hsize : (BitVec.ofNat 32 d.length).toNat = d.length := by
    rw [BitVec.toNat_ofNat]
    omega
  have hrun := writeMemoryBinary_runs u data g (by rw [hrange]; exact haddress) hafter
  rw [hrange] at hrun
  dsimp only at hrun
  rw [hsize, contents_unescapes he.unescapes hdrop, ← List.append_assoc,
    ← List.append_assoc] at hrun
  have hsilent := ((silent_rangeEvents data).append (silent_afterEvents data (chr ':'))).append
    (silent_contentEvents data d.length o)
  refine ⟨_, hrun, ?_⟩
  rw [sends_reply hsilent, List.flatten_singleton]

/-- What `X` does. -/
theorem download_runs (ha : Digits as address) (hn : Digits ns (BitVec.ofNat 32 d.length))
    (he : Escaped d e) (hlength : d.length ≤ 509) (haddress : address.toNat < g.mem.size) :
    ∃ es, Runs shown (writeMemoryBinary u (argument (downloadRequest as ns e) ds behind)) g (.ok ())
        ((g.withMem (g.mem.stored address d)).replied (text ['O', 'K'])) es ∧
      sends es = [frame (text ['O', 'K'])] :=
  downloadHandler_runs ha hn he (by omega) haddress

/-- What `m` does of bytes that are there. -/
theorem upload_runs (ha : Digits as address) (hn : Digits ns (BitVec.ofNat 32 d.length))
    (hlength : d.length ≤ 509) (hd : g.mem.dumped d.length address = d) :
    ∃ es, Runs shown (readMemory u (argument (uploadRequest as ns) ds behind)) g (.ok ())
        (g.replied (hexText d)) es ∧
      sends es = [frame (hexText d)] ∧
      ∀ k n, .store k n ∈ es → k + n ≤ MAX_PACKET_SIZE := by
  have hdata : argument (uploadRequest as ns) ds behind
      = as ++ chr ',' :: (ns ++ 0 :: (ds ++ 0 :: behind)) := by
    rw [uploadRequest, argument_eq (List.cons_ne_nil _ _)]
    simp
  have hnul : EndsNumber 0 := by decide
  have hrange := ha.givenRange u hn hnul (ds ++ 0 :: behind)
  rw [hdata]
  generalize as ++ chr ',' :: (ns ++ 0 :: (ds ++ 0 :: behind)) = data at hrange ⊢
  have hsize : (BitVec.ofNat 32 d.length).toNat = d.length := by
    rw [BitVec.toNat_ofNat]
    omega
  have htext : dumpText u data g.mem = hexText d := by
    rw [dumpText, hrange]
    dsimp only
    rw [hsize, hd]
  have hrun := readMemory_runs u data g
  rw [htext] at hrun
  have hsilent := silent_rangeEvents data
  refine ⟨_, hrun, ?_, fun k n hmem => ?_⟩
  · rw [sends_reply hsilent, dumpTexts_flatten, htext]
  · rcases List.mem_append.mp hmem with hrangeEvent | hreply
    · exact absurd hrangeEvent (hsilent.not_store k n)
    · have hbound := replyEvents_bound hreply
      rw [dumpTexts_flatten, htext, hexText_length] at hbound
      exact hbound.trans (by simp only [MAX_PACKET_SIZE]; omega)

end

/-- `o` is the download of the bytes `d` into the memory `mem`, `o'` their upload. Only a memory of
more than `2^32` bytes can hold bytes whose addresses wrap, so only there `unchanged` says more than
`outside`. -/
structure TransferLaw (mem : Memory) (address : BitVec 32) (d : List (BitVec 8))
    (o o' : Outcome Gdb GdbEvent (Except Fault Unit)) : Prop where
  downloaded : o.value = .ok () ∧ sends o.events = [[chr '+'], frame (text ['O', 'K'])]
  uploaded : o'.value = .ok () ∧ sends o'.events = [[chr '+'], frame (hexText d)]
  /-- the upload fits into the reply buffer -/
  stores : ∀ k n, .store k n ∈ o'.events → k + n ≤ MAX_PACKET_SIZE
  unchanged : ∀ i, i ∉ covered address d.length → o'.state.mem.address i = mem.address i
  /-- the same for an interval, where the address does not wrap -/
  outside : address.toNat + d.length ≤ 2 ^ 32 →
    ∀ i, i < address.toNat ∨ address.toNat + d.length ≤ i →
      o'.state.mem.address i = mem.address i

/-- **What is downloaded is uploaded again, and nothing else is written.** -/
theorem download_upload (cfg : GdbConfig) (u u' : GdbLocals) (g : Gdb) (address : BitVec 32)
    (d : List (BitVec 8)) (e as ns as' ns' ds ds' behind behind' : List Byte)
    (hne : d ≠ []) (hlength : d.length ≤ 509) (hinside : g.mem.Inside address d.length)
    (he : Escaped d e) (ha : Digits as address) (hn : Digits ns (BitVec.ofNat 32 d.length))
    (ha' : Digits as' address) (hn' : Digits ns' (BitVec.ofNat 32 d.length))
    (hds : Seals ds (downloadRequest as ns e)) (hds' : Seals ds' (uploadRequest as' ns')) :
    let packet := packetText (downloadRequest as ns e) ds
    let packet' := packetText (uploadRequest as' ns') ds'
    let o := gdbPacketAnalysis cfg u (packet ++ 0 :: behind) packet.length g
    let o' := gdbPacketAnalysis cfg u' (packet' ++ 0 :: behind') packet'.length o.state
    matchesPacket packet = true ∧ matchesPacket packet' = true ∧
      TransferLaw g.mem address d o o' := by
  intro packet packet' o o'
  have haddress : address.toNat < g.mem.size := by
    have hpos := List.length_pos_of_ne_nil hne
    have hsize : address.toNat + d.length ≤ g.mem.size := hinside
    omega
  obtain ⟨es, hdownload, hsends⟩ := download_runs ha hn he hlength haddress
  have hrun : Runs shown (gdbPacketAnalysis cfg u (packet ++ 0 :: behind) packet.length) g (.ok ())
      ((g.withMem (g.mem.stored address d)).replied (text ['O', 'K'])) (.send [chr '+'] :: es) :=
    hds.runs hdownload
  have hstate : o.state = (g.withMem (g.mem.stored address d)).replied (text ['O', 'K']) :=
    hrun.state
  have hstored : ((g.withMem (g.mem.stored address d)).replied (text ['O', 'K'])).mem.dumped
      d.length address = d := Memory.dumped_stored hinside (by omega)
  obtain ⟨es', hupload, hsends', hstores'⟩ := upload_runs ha' hn' hlength hstored
  have hrun' : Runs shown (gdbPacketAnalysis cfg u' (packet' ++ 0 :: behind') packet'.length)
      o.state (.ok ()) (o.state.replied (hexText d)) (.send [chr '+'] :: es') := by
    rw [hstate]
    exact hds'.runs hupload
  have hmem : o'.state.mem = g.mem.stored address d := by
    have hstate' : o'.state = o.state.replied (hexText d) := hrun'.state
    rw [hstate', hstate]
    rfl
  have hunchanged : ∀ i, i ∉ covered address d.length →
      o'.state.mem.address i = g.mem.address i := by
    intro i hi
    rw [hmem, Memory.stored_frame hi]
  refine ⟨?_, ?_, ⟨hrun.value, ?_⟩, ⟨hrun'.value, ?_⟩, fun k n hstore => ?_, hunchanged, ?_⟩
  · exact matchesPacket_iff.mpr ⟨_, _, rfl, isPacket_downloadRequest ha hn he hds⟩
  · exact matchesPacket_iff.mpr ⟨_, _, rfl, isPacket_uploadRequest ha' hn' hds'⟩
  · rw [sends_of_runs hrun, sends_send, hsends]
  · rw [sends_of_runs hrun', sends_send, hsends']
  · rcases List.mem_cons.mp (store_mem_of_runs hrun' hstore) with hack | hreply
    · cases hack
    · exact hstores' k n hreply
  · intro hfit i hi
    refine hunchanged i fun hcovered => ?_
    have hinterval := covered_interval hfit hcovered
    omega

/-- A closing brace and a NUL at address 4. -/
theorem download_upload_brace :
    let request := downloadRequest (text ['4']) (text ['2']) [0x7d, 0x5d, 0x00]
    let request' := uploadRequest (text ['0', '4']) (text ['2'])
    let packet := packetText request (hex2 (checksum request))
    let packet' := packetText request' (hex2 (checksum request'))
    let o := gdbPacketAnalysis littleEndian zeroLocals (packet ++ [0]) packet.length (idleGdb 64)
    let o' := gdbPacketAnalysis littleEndian zeroLocals (packet' ++ [0]) packet'.length o.state
    matchesPacket packet = true ∧ matchesPacket packet' = true ∧
      TransferLaw (idleGdb 64).mem 4 [0x7d, 0x00] o o' :=
  download_upload littleEndian zeroLocals zeroLocals (idleGdb 64) 4 [0x7d, 0x00]
    [0x7d, 0x5d, 0x00] (text ['4']) (text ['2']) (text ['0', '4']) (text ['2']) _ _ [] []
    (by decide) (by decide) (by decide) (.escape (by decide) (.plain (by decide) .nil))
    ⟨by decide, by decide, by decide⟩ ⟨by decide, by decide, by decide⟩
    ⟨by decide, by decide, by decide⟩ ⟨by decide, by decide, by decide⟩
    (seals_hex2 _) (seals_hex2 _)

end Armator
