import Armator.Semantics.Session

set_option autoImplicit false

/-! # Register dump and restore

The payloads of the reply to `g` and of the request `G` have the same layout: 16 registers, 25
slots that are not used, the CPSR. Restoring a dump changes nothing, and what is restored is
dumped (`dump_restore`), in any byte order.
-/

namespace Armator

open Logged CString

/-! ## Layout -/

/-- The texts of r0 to r15, the slots in between, the text of the CPSR. -/
def layout (texts : Nat → List Byte) (unused cpsr : List Byte) : List Byte :=
  (List.range 16).flatMap texts ++ (unused ++ cpsr)

/-- The text of the slots of f0 to f7 and fps in a dump. -/
def unavailable : List Byte := List.replicate ((8 * 3 + 1) * 8) (chr 'x')

/-- `ds` is a way to write `v` in a slot. -/
structure WordDigits (cfg : GdbConfig) (ds : List Byte) (v : BitVec 32) : Prop where
  hex : IsHex ds
  eight : ds.length = 8
  bytes : hexBytes ds = wordBytes cfg.targetBigEndian v

/-- The value of a register slot in a dump. -/
def slotValue (c : ArmCore) (i : Nat) : BitVec 32 :=
  if i = 15 then c.regValue 15 - 4 else c.regValue i

section

variable {cfg : GdbConfig} {c : ArmCore}

theorem wordDigits_wordText (cfg : GdbConfig) (v : BitVec 32) :
    WordDigits cfg (wordText cfg v) v :=
  ⟨isHex_wordText cfg v, wordText_length cfg v, hexBytes_hexText _⟩

/-- A slot is read where it stands. -/
theorem WordDigits.readWord {ds data rest : List Byte} {v : BitVec 32} {o : Nat}
    (h : WordDigits cfg ds v) (value : Nat → BitVec 32) (hdata : data.drop o = ds ++ rest) :
    Armator.readWord cfg value data o = v := by
  rw [readWord_hex cfg value h.hex h.eight hdata, h.bytes, wordOf_wordBytes]

theorem slotValue_of_ne {i : Nat} (hi : i ≠ 15) : slotValue c i = c.reg.rData i := by
  rw [slotValue, if_neg hi, ArmCore.regValue, if_neg hi]

/-- The pc is dumped without bit 1. -/
theorem slotValue_pc : slotValue c 15 = c.reg.rData 15 &&& 0xFFFFFFFD := c.fetchAddress_eq_mask

/-- A dump has the layout of a request. -/
theorem generalText_eq_layout (cfg : GdbConfig) (c : ArmCore) :
    generalText cfg c
      = layout (fun i => wordText cfg (slotValue c i)) unavailable (wordText cfg c.cpsr) := by
  have hlow : (List.range 15).flatMap (fun i => wordText cfg (slotValue c i))
      = (List.range 15).flatMap fun i => wordText cfg (c.regValue i) := by
    refine List.flatMap_congr fun i hi => ?_
    rw [slotValue, if_neg (Nat.ne_of_lt (List.mem_range.mp hi))]
  have hall : List.range 16 = List.range 15 ++ [15] := List.range_succ
  have hpc : slotValue c 15 = c.regValue 15 - 4 := rfl
  rw [generalText, layout, hall, List.flatMap_append, hlow, List.flatMap_singleton, hpc,
    List.append_assoc, unavailable]

end

/-! ## Slots -/

section

variable {texts : Nat → List Byte} {unused cpsr rest : List Byte}

theorem drop_flatMap {s n k : Nat} (htexts : ∀ i < s + n, (texts i).length = 8) (hk : k < n) :
    ∃ rest, ((List.range' s n).flatMap texts).drop (8 * k) = texts (s + k) ++ rest := by
  induction k generalizing s n with
  | zero =>
      obtain ⟨n, rfl⟩ := Nat.exists_eq_succ_of_ne_zero (show n ≠ 0 by omega)
      exact ⟨_, List.flatMap_cons⟩
  | succ k ih =>
      obtain ⟨n, rfl⟩ := Nat.exists_eq_succ_of_ne_zero (show n ≠ 0 by omega)
      obtain ⟨rest, hrest⟩ := ih (s := s + 1) (n := n) (fun i hi => htexts i (by omega)) (by omega)
      have hskip : 8 * (k + 1) = (texts s).length + 8 * k := by
        rw [htexts s (by omega)]
        ring
      have hcons : List.range' s (n + 1) = s :: List.range' (s + 1) n := rfl
      refine ⟨rest, ?_⟩
      rw [hcons, List.flatMap_cons, hskip, ← List.drop_drop, List.drop_left, hrest,
        Nat.add_assoc, Nat.add_comm 1]

theorem registers_length (htexts : ∀ i < 16, (texts i).length = 8) :
    ((List.range 16).flatMap texts).length = 8 * 16 := by
  rw [slots_length fun i hi => htexts i (List.mem_range.mp hi), List.length_range]

/-- A register slot. -/
theorem layout_drop (htexts : ∀ i < 16, (texts i).length = 8) {i : Nat} (hi : i < 16) :
    ∃ rest', (layout texts unused cpsr ++ rest).drop (8 * i) = texts i ++ rest' := by
  obtain ⟨rest', hrest'⟩ := drop_flatMap (s := 0) (n := 16) (fun i hi => htexts i (by omega)) hi
  rw [Nat.zero_add, ← List.range_eq_range'] at hrest'
  have hlength := registers_length htexts
  refine ⟨rest' ++ (unused ++ cpsr ++ rest), ?_⟩
  rw [layout, List.append_assoc, List.drop_append_of_le_length (by omega), hrest', List.append_assoc]

/-- The slot of the CPSR. -/
theorem layout_drop_cpsr (htexts : ∀ i < 16, (texts i).length = 8)
    (hunused : unused.length = (8 * 3 + 1) * 8) :
    (layout texts unused cpsr ++ rest).drop (8 * 41) = cpsr ++ rest := by
  have hskip : 8 * 41 = ((List.range 16).flatMap texts ++ unused).length := by
    rw [List.length_append, registers_length htexts, hunused]
  rw [layout, ← List.append_assoc, hskip, List.append_assoc _ cpsr, List.drop_left]

end

/-! ## Restoring -/

section

variable {cfg : GdbConfig} {u : GdbLocals} {texts : Nat → List Byte} {v : Nat → BitVec 32}
  {unused cpsr rest : List Byte} {vcpsr : BitVec 32} {c : ArmCore}

theorem ArmCore.generalRestored_mem (cfg : GdbConfig) (u : GdbLocals) (data : List Byte)
    (c : ArmCore) : (c.generalRestored cfg u data).mem = c.mem :=
  c.restored_mem cfg u data _ _

theorem ArmCore.generalRestored_cycleCount (cfg : GdbConfig) (u : GdbLocals) (data : List Byte)
    (c : ArmCore) : (c.generalRestored cfg u data).cycleCount = c.cycleCount :=
  c.restored_cycleCount cfg u data _ _

/-- The registers after a request of the layout. -/
theorem generalRestored_reg (htexts : ∀ i < 16, WordDigits cfg (texts i) (v i))
    (hcpsr : WordDigits cfg cpsr vcpsr) (hunused : unused.length = (8 * 3 + 1) * 8) (r : Nat) :
    (c.generalRestored cfg u (layout texts unused cpsr ++ rest)).reg.rData r
      = if r < 16 then v r else if r = 16 then vcpsr else c.reg.rData r := by
  have hlength : ∀ i < 16, (texts i).length = 8 := fun i hi => (htexts i hi).eight
  have hword : Armator.readWord cfg u.value (layout texts unused cpsr ++ rest) (8 * 41) = vcpsr :=
    hcpsr.readWord u.value (layout_drop_cpsr hlength hunused)
  rw [ArmCore.generalRestored, hword]
  by_cases hcpsrReg : r = 16
  · subst hcpsrReg
    rw [ArmCore.setReg_same, if_neg (Nat.lt_irrefl 16), if_pos rfl]
  · rw [ArmCore.setReg_of_ne _ hcpsrReg, List.range_eq_range', ArmCore.restored_reg,
      if_neg hcpsrReg]
    by_cases hr : r < 16
    · obtain ⟨rest', hslot⟩ : ∃ rest', (layout texts unused cpsr ++ rest).drop (8 * r)
        = texts r ++ rest' := layout_drop hlength hr
      rw [if_pos ⟨Nat.zero_le r, by omega⟩, if_pos hr, Nat.sub_zero, Nat.zero_add,
        (htexts r hr).readWord u.value hslot]
    · rw [if_neg (by omega), if_neg hr]

/-- A dump restores the processor. -/
theorem generalRestored_dump (h15 : (c.reg.rData 15).getLsbD 1 = false) :
    c.generalRestored cfg u (generalText cfg c ++ rest) = c := by
  have hunused : unavailable.length = (8 * 3 + 1) * 8 := List.length_replicate
  have hreg (r : Nat) : (c.generalRestored cfg u (generalText cfg c ++ rest)).reg.rData r
      = c.reg.rData r := by
    rw [generalText_eq_layout, generalRestored_reg (fun i _ => wordDigits_wordText cfg _)
      (wordDigits_wordText cfg _) hunused]
    by_cases hpc : r = 15
    · subst hpc
      rw [if_pos (by decide), slotValue_pc, and_mask_of_clear h15]
    · rw [slotValue_of_ne hpc]
      by_cases hcpsr : r = 16
      · subst hcpsr
        rfl
      · rw [if_neg hcpsr, ite_self]
  have hregs : (c.generalRestored cfg u (generalText cfg c ++ rest)).reg = c.reg :=
    congrArg Registers.mk (funext hreg)
  have hmem := c.generalRestored_mem cfg u (generalText cfg c ++ rest)
  have hcycle := c.generalRestored_cycleCount cfg u (generalText cfg c ++ rest)
  generalize c.generalRestored cfg u (generalText cfg c ++ rest) = c' at hregs hmem hcycle ⊢
  obtain ⟨cycleCount, reg, mem⟩ := c'
  cases hregs
  cases hmem
  cases hcycle
  rfl

/-- What is restored is dumped. -/
theorem generalText_restored (htexts : ∀ i < 16, WordDigits cfg (texts i) (v i))
    (hcpsr : WordDigits cfg cpsr vcpsr) (hunused : unused.length = (8 * 3 + 1) * 8) :
    generalText cfg (c.generalRestored cfg u (layout texts unused cpsr ++ rest))
      = layout (fun i => wordText cfg (if i = 15 then v 15 &&& 0xFFFFFFFD else v i)) unavailable
          (wordText cfg vcpsr) := by
  have hreg (r : Nat) :
      (c.generalRestored cfg u (layout texts unused cpsr ++ rest)).reg.rData r
        = if r < 16 then v r else if r = 16 then vcpsr else c.reg.rData r :=
    generalRestored_reg htexts hcpsr hunused r
  generalize c.generalRestored cfg u (layout texts unused cpsr ++ rest) = c' at hreg ⊢
  have hcpsrValue : c'.cpsr = vcpsr := hreg 16
  have hslot : ∀ i < 16, slotValue c' i = if i = 15 then v 15 &&& 0xFFFFFFFD else v i := by
    intro i hi
    by_cases hpc : i = 15
    · subst hpc
      rw [slotValue_pc, hreg, if_pos hi, if_pos rfl]
    · rw [slotValue_of_ne hpc, hreg, if_pos hi, if_neg hpc]
  rw [generalText_eq_layout, hcpsrValue, layout, layout]
  congr 1
  refine List.flatMap_congr fun i hi => ?_
  rw [hslot i (List.mem_range.mp hi)]

end

/-! ## The law -/

section

variable (cfg : GdbConfig) (u u' : GdbLocals) (behind behind' : List Byte) (g : Gdb)

/-- The request `g`, and then `G` with the payload of the reply. -/
def DumpThenRestore : Prop :=
  let o := gdbPacketAnalysis cfg u (frame [chr 'g'] ++ 0 :: behind) (frame [chr 'g']).length g
  ∃ payload, o.value = .ok () ∧ sends o.events = [[chr '+'], frame payload] ∧
    ∀ ds, Seals ds (chr 'G' :: payload) →
      let packet := packetText (chr 'G' :: payload) ds
      let o' := gdbPacketAnalysis cfg u' (packet ++ 0 :: behind') packet.length o.state
      o'.value = .ok () ∧ sends o'.events = [[chr '+'], frame (text ['O', 'K'])] ∧
        o'.state.arm = g.arm

/-- A request `G` with the values `v` and `vcpsr` in its slots, and then `g`. -/
def RestoreThenDump (payload ds : List Byte) (v : Nat → BitVec 32) (vcpsr : BitVec 32) : Prop :=
  let packet := packetText (chr 'G' :: payload) ds
  let o := gdbPacketAnalysis cfg u (packet ++ 0 :: behind) packet.length g
  let o' := gdbPacketAnalysis cfg u' (frame [chr 'g'] ++ 0 :: behind') (frame [chr 'g']).length
    o.state
  o.value = .ok () ∧ sends o.events = [[chr '+'], frame (text ['O', 'K'])] ∧
    o'.value = .ok () ∧ sends o'.events = [[chr '+'],
      frame (layout (fun i => wordText cfg (if i = 15 then v 15 &&& 0xFFFFFFFD else v i))
        unavailable (wordText cfg vcpsr))]

/-- The request `g`. -/
theorem dump_runs :
    ∃ es, Runs shown (gdbPacketAnalysis cfg u (frame [chr 'g'] ++ 0 :: behind)
        (frame [chr 'g']).length) g (.ok ()) (g.replied (generalText cfg g.arm)) es ∧
      sends es = [[chr '+'], frame (generalText cfg g.arm)] := by
  have hrun : Runs shown (gdbPacketAnalysis cfg u (frame [chr 'g'] ++ 0 :: behind)
      (frame [chr 'g']).length) g (.ok ()) (g.replied (generalText cfg g.arm))
      (.send [chr '+'] :: replyEvents (generalTexts cfg g.arm)) :=
    (seals_hex2 [chr 'g']).runs (readGeneralRegisters_runs cfg g)
  refine ⟨_, hrun, ?_⟩
  rw [sends_send, sends_replyEvents, generalTexts_flatten]

/-- The request `G`. -/
theorem restore_runs {payload ds : List Byte} (hds : Seals ds (chr 'G' :: payload)) :
    ∃ es, Runs shown (gdbPacketAnalysis cfg u (packetText (chr 'G' :: payload) ds ++ 0 :: behind)
        (packetText (chr 'G' :: payload) ds).length) g (.ok ())
        ((g.withArm (g.arm.generalRestored cfg u (payload ++ 0 :: (ds ++ 0 :: behind)))).replied
          (text ['O', 'K'])) es ∧
      sends es = [[chr '+'], frame (text ['O', 'K'])] := by
  have hrestore := writeGeneralRegisters_runs cfg u (payload ++ 0 :: (ds ++ 0 :: behind)) g
  have hsilent := silent_scansEvents (payload ++ 0 :: (ds ++ 0 :: behind)) 168 0
  generalize scansEvents (payload ++ 0 :: (ds ++ 0 :: behind)) 168 0 = es at hrestore hsilent
  have hrun : Runs shown (gdbPacketAnalysis cfg u (packetText (chr 'G' :: payload) ds ++ 0 :: behind)
      (packetText (chr 'G' :: payload) ds).length) g (.ok ())
      ((g.withArm (g.arm.generalRestored cfg u (payload ++ 0 :: (ds ++ 0 :: behind)))).replied
        (text ['O', 'K'])) (.send [chr '+'] :: (es ++ replyEvents [text ['O', 'K']])) :=
    hds.runs hrestore
  refine ⟨_, hrun, ?_⟩
  rw [sends_send, sends_reply hsilent, List.flatten_singleton]

end

/-- **Dump and restore are inverse.** The reply to `g`, sent back with `G`, leaves the processor as
it is, if bit 1 of `r15` is clear. What `G` writes, in whatever digits, is what the next `g`
reads. -/
theorem dump_restore (cfg : GdbConfig) (u u' : GdbLocals) (behind behind' : List Byte) (g : Gdb) :
    ((g.arm.reg.rData 15).getLsbD 1 = false → DumpThenRestore cfg u u' behind behind' g) ∧
    ∀ (texts : Nat → List Byte) (v : Nat → BitVec 32) (unused cpsr : List Byte)
      (vcpsr : BitVec 32) (ds : List Byte),
      (∀ i < 16, WordDigits cfg (texts i) (v i)) → unused.length = (8 * 3 + 1) * 8 →
      WordDigits cfg cpsr vcpsr → Seals ds (chr 'G' :: layout texts unused cpsr) →
      RestoreThenDump cfg u u' behind behind' g (layout texts unused cpsr) ds v vcpsr := by
  constructor
  · intro h15
    unfold DumpThenRestore
    intro o
    obtain ⟨es, hdump, hsends⟩ := dump_runs cfg u behind g
    have hstate : o.state = g.replied (generalText cfg g.arm) := hdump.state
    refine ⟨generalText cfg g.arm, hdump.value, (sends_of_runs hdump).trans hsends, ?_⟩
    intro ds hds packet o'
    obtain ⟨es', hrestore, hsends'⟩ := restore_runs cfg u' behind' o.state hds
    refine ⟨hrestore.value, (sends_of_runs hrestore).trans hsends', ?_⟩
    calc o'.state.arm
        = o.state.arm.generalRestored cfg u' (generalText cfg g.arm ++ 0 :: (ds ++ 0 :: behind')) := by
          rw [show o'.state = _ from hrestore.state]
          rfl
      _ = g.arm.generalRestored cfg u' (generalText cfg g.arm ++ 0 :: (ds ++ 0 :: behind')) := by
          rw [hstate, Gdb.replied_arm]
      _ = g.arm := generalRestored_dump h15
  · intro texts v unused cpsr vcpsr ds htexts hunused hcpsr hds
    unfold RestoreThenDump
    intro packet o o'
    obtain ⟨es, hrestore, hsends⟩ := restore_runs cfg u behind g hds
    obtain ⟨es', hdump, hsends'⟩ := dump_runs cfg u' behind' o.state
    have harm : o.state.arm = g.arm.generalRestored cfg u
        (layout texts unused cpsr ++ 0 :: (ds ++ 0 :: behind)) := by
      rw [show o.state = _ from hrestore.state]
      rfl
    rw [harm, generalText_restored htexts hcpsr hunused] at hsends'
    exact ⟨hrestore.value, (sends_of_runs hrestore).trans hsends, hdump.value,
      (sends_of_runs hdump).trans hsends'⟩

/-- An idle stub: the dump of its registers, and registers that hold their own numbers. -/
theorem dump_restore_idle :
    DumpThenRestore littleEndian zeroLocals zeroLocals [] [] (idleGdb 64) ∧
      RestoreThenDump littleEndian zeroLocals zeroLocals [] [] (idleGdb 64)
        (layout (fun i => wordText littleEndian (BitVec.ofNat 32 i)) unavailable
          (wordText littleEndian 0x1d3))
        (hex2 (checksum (chr 'G' :: layout (fun i => wordText littleEndian (BitVec.ofNat 32 i))
          unavailable (wordText littleEndian 0x1d3))))
        (BitVec.ofNat 32) 0x1d3 := by
  have hlaw := dump_restore littleEndian zeroLocals zeroLocals [] [] (idleGdb 64)
  exact ⟨hlaw.1 rfl, hlaw.2 _ (BitVec.ofNat 32) unavailable _ 0x1d3 _
    (fun i _ => wordDigits_wordText _ _) List.length_replicate (wordDigits_wordText _ _)
    (seals_hex2 _)⟩

end Armator
