import Armator.Laws.RegisterDump
import Armator.Laws.Requests

set_option autoImplicit false

/-! # One register

`P` reads the number of its register in hexadecimal, `p` reads it in decimal: a letter is no
digit for `p`, which then answers with r0. What is written to a register is read back when the
two numbers agree, or when r0 held the value before (`singleRegisterLaw_iff`).
-/

namespace Armator

open Logged CString

/-! ## Answers -/

/-- Whatever stands behind it, `request` is acknowledged and answered with `payload`. -/
def AnsweredWith (cfg : GdbConfig) (g : Gdb) (request payload : List Byte) : Prop :=
  ∀ (u : GdbLocals) (behind ds : List Byte), Seals ds request →
    let packet := packetText request ds
    let o := gdbPacketAnalysis cfg u (packet ++ 0 :: behind) packet.length g
    o.value = .ok () ∧ sends o.events = [[chr '+'], frame payload]

/-- The register that `p` reads, given the number `n`. -/
def answeredReg (n : BitVec 32) : BitVec 32 := if n < 10 then n else 0

section

variable {cfg : GdbConfig} {g : Gdb} {request payload answer ns : List Byte} {n : BitVec 32}

/-- A request has one answer. -/
theorem answeredWith_iff
    (hrun : ∀ (u : GdbLocals) (behind ds : List Byte), Seals ds request → ∃ g' es,
      Runs shown (gdbPacketAnalysis cfg u (packetText request ds ++ 0 :: behind)
        (packetText request ds).length) g (.ok ()) g' es ∧
      sends es = [[chr '+'], frame answer]) :
    AnsweredWith cfg g request payload ↔ payload = answer := by
  constructor
  · intro hanswered
    obtain ⟨g', es, hruns, hsends⟩ := hrun zeroLocals [] _ (seals_hex2 request)
    have hpayload := (hanswered zeroLocals [] _ (seals_hex2 request)).2
    rw [sends_of_runs hruns, hsends, List.cons.injEq, List.cons.injEq] at hpayload
    exact (frame_injective (List.singleton_inj.mp hpayload.2)).symm
  · rintro rfl u behind ds hds
    obtain ⟨g', es, hruns, hsends⟩ := hrun u behind ds hds
    exact ⟨hruns.value, (sends_of_runs hruns).trans hsends⟩

theorem answeredReg_lt (n : BitVec 32) : answeredReg n < 10 := by
  unfold answeredReg
  split
  · assumption
  · decide

theorem answeredReg_of_lt (h : n < 10) : answeredReg n = n := if_pos h

theorem answeredReg_of_not_lt (h : ¬ n < 10) : answeredReg n = 0 := if_neg h

/-- `atoi` reads one digit of a number below 16, but no letter. -/
theorem Digits.atoi (h : Digits ns n) (hn : n < 16) : CString.atoi ns = answeredReg n := by
  have hlt : valueIn 16 ns < 16 := by
    rw [h.value]
    exact hn
  have hten : n < 10 ↔ n.toNat < 10 := Iff.rfl
  apply BitVec.eq_of_toNat_eq
  rw [atoi_digit h.hex hlt, h.value, answeredReg, apply_ite BitVec.toNat]
  simp only [hten]
  rfl

theorem readRegister_answeredWith (h : Digits ns n) (hn : n < 16) :
    AnsweredWith cfg g (chr 'p' :: ns) payload ↔
      payload = wordText cfg (g.arm.reg.rData (answeredReg n).toNat) := by
  refine answeredWith_iff fun u behind ds hds => ?_
  have hlt := answeredReg_lt n
  have hreg : CString.atoi (cstring (ns ++ 0 :: (ds ++ 0 :: behind))) = answeredReg n := by
    rw [cstring_append h.nul, h.atoi hn]
  have hlow : (answeredReg n).toNat ≠ 15 := by
    have hnat : (answeredReg n).toNat < 10 := hlt
    omega
  have hprinted : printedReg g.arm (answeredReg n) = g.arm.reg.rData (answeredReg n).toNat := by
    have hne : answeredReg n ≠ 15 := fun heq => hlow (congrArg BitVec.toNat heq)
    rw [printedReg, ArmCore.regValue, if_neg hlow, if_neg hne]
    exact BitVec.sub_zero _
  have hsmall : answeredReg n < 16 := BitVec.lt_trans hlt (by decide)
  have hread := readRegisterHandler_runs cfg (ns ++ 0 :: (ds ++ 0 :: behind)) g
    (by rw [hreg]; exact hsmall)
  rw [hreg, hprinted] at hread
  refine ⟨_, _, hds.runs hread, ?_⟩
  rw [sends_send]
  refine congrArg (List.cons [chr '+']) ?_
  rw [← List.singleton_append, sends_reply (Silent.cons rfl silent_nil), wordTexts_flatten]

theorem dump_answeredWith :
    AnsweredWith cfg g [chr 'g'] payload ↔ payload = generalText cfg g.arm := by
  refine answeredWith_iff fun u behind ds hds => ?_
  refine ⟨_, _, hds.runs (readGeneralRegisters_runs cfg g), ?_⟩
  rw [sends_send, sends_replyEvents, generalTexts_flatten]

end

/-! ## Slots of a dump -/

section

variable {cfg : GdbConfig} {texts texts' : Nat → List Byte} {unused cpsr : List Byte}

theorem slot_layout (htexts : ∀ i < 16, (texts i).length = 8) {i : Nat} (hi : i < 16) :
    slot (layout texts unused cpsr) i = texts i := by
  obtain ⟨rest, hrest⟩ : ∃ rest, (layout texts unused cpsr ++ []).drop (8 * i) = texts i ++ rest :=
    layout_drop htexts hi
  rw [List.append_nil] at hrest
  rw [slot, hrest, List.take_append_of_le_length (by rw [htexts i hi]),
    List.take_of_length_le (by rw [htexts i hi])]

/-- Behind the registers no slot depends on them. -/
theorem slot_layout_behind (htexts : ∀ i < 16, (texts i).length = 8) {i : Nat} (hi : 16 ≤ i) :
    slot (layout texts unused cpsr) i = ((unused ++ cpsr).drop (8 * (i - 16))).take 8 := by
  have hlength := registers_length htexts
  have hoffset : 8 * i - 8 * 16 = 8 * (i - 16) := by omega
  rw [slot, layout, List.drop_append, hlength, List.drop_eq_nil_of_le (by omega), List.nil_append,
    hoffset]

/-- A register that is set changes its own slot only. -/
theorem slot_generalText_setReg (cfg : GdbConfig) (c : ArmCore) {r : Nat} {v : BitVec 32}
    (hr : r < 16) (hpc : r = 15 → v &&& 0xFFFFFFFD = v) (i : Nat) :
    slot (generalText cfg (c.setReg r v)) i
      = if i = r then wordText cfg v else slot (generalText cfg c) i := by
  have hlength (c : ArmCore) : ∀ i < 16, (wordText cfg (slotValue c i)).length = 8 :=
    fun i _ => wordText_length cfg _
  have hcpsr : (c.setReg r v).cpsr = c.cpsr := c.setReg_of_ne (by omega) v
  rw [generalText_eq_layout, generalText_eq_layout, hcpsr]
  by_cases hi : i < 16
  · rw [slot_layout (hlength _) hi, slot_layout (hlength _) hi]
    by_cases hir : i = r
    · subst hir
      rw [if_pos rfl]
      by_cases h15 : i = 15
      · subst h15
        rw [slotValue_pc, c.setReg_same, hpc rfl]
      · rw [slotValue_of_ne h15, c.setReg_same]
    · have hother : slotValue (c.setReg r v) i = slotValue c i := by
        by_cases h15 : i = 15
        · subst h15
          rw [slotValue_pc, slotValue_pc, c.setReg_of_ne hir]
        · rw [slotValue_of_ne h15, slotValue_of_ne h15, c.setReg_of_ne hir]
      rw [if_neg hir, hother]
  · have hbehind : 16 ≤ i := Nat.not_lt.mp hi
    rw [slot_layout_behind (hlength _) hbehind, slot_layout_behind (hlength _) hbehind,
      if_neg (by omega)]

end

/-! ## The law -/

/-- The digits `ws` are in the register `n`, and nothing else is changed, as far as `p` and `g`
show; `g` is the state before and `o` what the request `P` comes to. -/
structure SingleRegisterLaw (cfg : GdbConfig) (g : Gdb) (n : BitVec 32) (ws : List Byte)
    (o : Outcome Gdb GdbEvent (Except Fault Unit)) : Prop where
  taken : o.value = .ok () ∧ sends o.events = [[chr '+'], frame (text ['O', 'K'])]
  single : ∀ ns, Digits ns n → AnsweredWith cfg o.state (chr 'p' :: ns) (lowercase ws)
  dumped : ∃ before after, AnsweredWith cfg g [chr 'g'] before ∧
    AnsweredWith cfg o.state [chr 'g'] after ∧
    ∀ i, slot after i = if i = n.toNat then lowercase ws else slot before i
  others : ∀ m ms, m < 16 → m ≠ n → Digits ms m → ∃ answer,
    AnsweredWith cfg g (chr 'p' :: ms) answer ∧ AnsweredWith cfg o.state (chr 'p' :: ms) answer
  cpsr : o.state.arm.cpsr = g.arm.cpsr
  mem : o.state.mem = g.mem

section

variable {cfg : GdbConfig} {u : GdbLocals} {g : Gdb} {n v : BitVec 32}
  {ns ws ds behind : List Byte}

/-- The digits of a word, as they are printed. -/
theorem WordDigits.lowercase (h : WordDigits cfg ws v) : lowercase ws = wordText cfg v := by
  rw [wordText, ← h.bytes, hexText_hexBytes (n := 4) h.hex h.eight]

/-- The request `P`. -/
theorem writeRegister_runs (u : GdbLocals) (behind : List Byte) (g : Gdb) (hn : n < 16)
    (hns : Digits ns n) (hws : WordDigits cfg ws v)
    (hds : Seals ds (chr 'P' :: (ns ++ chr '=' :: ws))) :
    ∃ es, Runs shown (gdbPacketAnalysis cfg u
        (packetText (chr 'P' :: (ns ++ chr '=' :: ws)) ds ++ 0 :: behind)
        (packetText (chr 'P' :: (ns ++ chr '=' :: ws)) ds).length) g (.ok ())
        ((g.withArm (g.arm.setReg n.toNat v)).replied (text ['O', 'K'])) es ∧
      sends es = [[chr '+'], frame (text ['O', 'K'])] := by
  have hdata : (ns ++ chr '=' :: ws) ++ 0 :: (ds ++ 0 :: behind)
      = ns ++ chr '=' :: (ws ++ 0 :: (ds ++ 0 :: behind)) := by simp
  obtain ⟨-, hafter, hdrop⟩ := hns.assignment (ws ++ 0 :: (ds ++ 0 :: behind))
  have hgiven := hns.givenReg u (ws ++ 0 :: (ds ++ 0 :: behind))
  have hwrite := writeRegisterHandler_runs cfg u _ g hafter (by rw [hgiven]; exact hn)
  rw [hgiven, hws.readWord u.value hdrop, ← hdata, ← List.append_assoc, ← List.append_assoc]
    at hwrite
  have hsilent := ((silent_givenEvents (ns ++ chr '=' :: ws ++ 0 :: (ds ++ 0 :: behind))).append
    (silent_afterEvents (ns ++ chr '=' :: ws ++ 0 :: (ds ++ 0 :: behind)) (chr '='))).append
      (silent_scansEvents (ns ++ chr '=' :: ws ++ 0 :: (ds ++ 0 :: behind)) 4 (ns.length + 1))
  refine ⟨_, hds.runs hwrite, ?_⟩
  rw [sends_send, sends_reply hsilent, List.flatten_singleton]

/-- The law in terms of the registers that `p` reads. -/
theorem singleRegisterLaw_registers (hn : n < 16) (hns : Digits ns n) (hws : WordDigits cfg ws v)
    (hpc : n = 15 → v.toNat % 4 = 0) (hds : Seals ds (chr 'P' :: (ns ++ chr '=' :: ws))) :
    SingleRegisterLaw cfg g n ws (gdbPacketAnalysis cfg u
        (packetText (chr 'P' :: (ns ++ chr '=' :: ws)) ds ++ 0 :: behind)
        (packetText (chr 'P' :: (ns ++ chr '=' :: ws)) ds).length g) ↔
      ∀ m < 16, (g.arm.setReg n.toNat v).reg.rData (answeredReg m).toNat
        = if m = n then v else g.arm.reg.rData (answeredReg m).toNat := by
  obtain ⟨es, hrun, hsends⟩ := writeRegister_runs u behind g hn hns hws hds
  generalize gdbPacketAnalysis cfg u (packetText (chr 'P' :: (ns ++ chr '=' :: ws)) ds ++ 0 :: behind)
    (packetText (chr 'P' :: (ns ++ chr '=' :: ws)) ds).length = request at hrun
  have harm : (request g).state.arm = g.arm.setReg n.toNat v := by
    rw [hrun.state]
    rfl
  have hcpsr : n.toNat ≠ 16 := by
    have hnat : n.toNat < 16 := hn
    omega
  have hmask : n.toNat = 15 → v &&& 0xFFFFFFFD = v := fun h15 => by
    have hword : v.toNat % 4 = 0 := hpc (BitVec.eq_of_toNat_eq h15)
    refine and_mask_of_clear ?_
    rw [BitVec.getLsbD, Nat.testBit_eq_decide_div_mod_eq]
    exact decide_eq_false (by omega)
  constructor
  · intro hlaw m hm
    by_cases hmn : m = n
    · subst hmn
      have hsingle := (readRegister_answeredWith hns hm).mp (hlaw.single ns hns)
      rw [hws.lowercase, harm] at hsingle
      rw [if_pos rfl]
      exact (wordText_injective cfg hsingle).symm
    · rw [if_neg hmn]
      obtain ⟨answer, hbefore, hafter⟩ := hlaw.others m _ hm hmn (digits_hexDigit hm)
      rw [readRegister_answeredWith (digits_hexDigit hm) hm] at hbefore hafter
      rw [harm, hbefore] at hafter
      exact (wordText_injective cfg hafter).symm
  · intro hregs
    refine ⟨⟨hrun.value, (sends_of_runs hrun).trans hsends⟩, fun ns' hns' => ?_, ?_,
      fun m ms hm hmn hms => ⟨_, (readRegister_answeredWith hms hm).mpr rfl, ?_⟩, ?_, ?_⟩
    · rw [readRegister_answeredWith hns' hn, hws.lowercase, harm, hregs n hn, if_pos rfl]
    · refine ⟨_, _, dump_answeredWith.mpr rfl, dump_answeredWith.mpr rfl, fun i => ?_⟩
      rw [harm, hws.lowercase, slot_generalText_setReg cfg g.arm hn hmask]
    · rw [readRegister_answeredWith hms hm, harm, hregs m hm, if_neg hmn]
    · rw [harm]
      exact g.arm.setReg_of_ne hcpsr.symm v
    · rw [Gdb.mem, harm]
      rfl

end

/-- **When a register that is written is read back**: r1 to r9 always are, r0 and r10 to r15 when
the value is the one r0 held. -/
theorem singleRegisterLaw_iff (cfg : GdbConfig) (u : GdbLocals) (behind : List Byte) (g : Gdb)
    (n v : BitVec 32) (ns ws ds : List Byte) (hn : n < 16) (hns : Digits ns n)
    (hws : WordDigits cfg ws v) (hpc : n = 15 → v.toNat % 4 = 0)
    (hds : Seals ds (chr 'P' :: (ns ++ chr '=' :: ws))) :
    SingleRegisterLaw cfg g n ws (gdbPacketAnalysis cfg u
        (packetText (chr 'P' :: (ns ++ chr '=' :: ws)) ds ++ 0 :: behind)
        (packetText (chr 'P' :: (ns ++ chr '=' :: ws)) ds).length g) ↔
      (1 ≤ n ∧ n ≤ 9) ∨ v = g.arm.reg.rData 0 := by
  rw [singleRegisterLaw_registers hn hns hws hpc hds]
  have hletter : answeredReg 10 = 0 := rfl
  constructor
  · intro hregs
    by_cases hten : n < 10
    · by_cases hzero : n = 0
      · -- `pa` shows the new r0
        have hshown := hregs 10 (by decide)
        rw [hletter, hzero, if_neg (by decide)] at hshown
        exact .inr ((g.arm.setReg_same 0 v).symm.trans hshown)
      · exact .inl ⟨by bv_omega, by bv_omega⟩
    · have hshown := hregs n hn
      have hne : (0 : BitVec 32).toNat ≠ n.toNat := fun heq => hten (by bv_omega)
      rw [if_pos rfl, answeredReg_of_not_lt hten, g.arm.setReg_of_ne hne] at hshown
      exact .inr hshown.symm
  · intro hor m hm
    by_cases hmn : m = n
    · subst hmn
      rw [if_pos rfl]
      by_cases hten : m < 10
      · rw [answeredReg_of_lt hten, ArmCore.setReg_same]
      · have hne : (0 : BitVec 32).toNat ≠ m.toNat := fun heq => hten (by bv_omega)
        have hsame : v = g.arm.reg.rData 0 := hor.resolve_left fun hlow => hten (by bv_omega)
        rw [answeredReg_of_not_lt hten, g.arm.setReg_of_ne hne]
        exact hsame.symm
    · rw [if_neg hmn]
      by_cases hshared : answeredReg m = n
      · have hten : ¬ m < 10 := fun hlt => hmn ((answeredReg_of_lt hlt).symm.trans hshared)
        rw [answeredReg_of_not_lt hten] at hshared
        subst hshared
        have hsame : v = g.arm.reg.rData 0 := hor.resolve_left fun hlow => absurd hlow.1 (by decide)
        rw [answeredReg_of_not_lt hten]
        exact (g.arm.setReg_same 0 v).trans hsame
      · exact g.arm.setReg_of_ne (fun heq => hshared (BitVec.eq_of_toNat_eq heq)) v

/-- r7 of an idle stub. -/
theorem singleRegisterLaw_iff_r7 :
    SingleRegisterLaw littleEndian (idleGdb 64) 7 (wordText littleEndian 0x12345678)
        (gdbPacketAnalysis littleEndian zeroLocals
          (packetText (chr 'P' :: (text ['7'] ++ chr '=' :: wordText littleEndian 0x12345678))
            (hex2 (checksum (chr 'P' ::
              (text ['7'] ++ chr '=' :: wordText littleEndian 0x12345678)))) ++ [0])
          (packetText (chr 'P' :: (text ['7'] ++ chr '=' :: wordText littleEndian 0x12345678))
            (hex2 (checksum (chr 'P' ::
              (text ['7'] ++ chr '=' :: wordText littleEndian 0x12345678))))).length
          (idleGdb 64)) ↔
      ((1 : BitVec 32) ≤ 7 ∧ (7 : BitVec 32) ≤ 9) ∨ 0x12345678 = (idleGdb 64).arm.reg.rData 0 :=
  singleRegisterLaw_iff littleEndian zeroLocals [] (idleGdb 64) 7 0x12345678 (text ['7']) _ _
    (by decide) ⟨by decide, by decide, by decide⟩ (wordDigits_wordText _ _)
    (fun h => absurd h (by decide)) (seals_hex2 _)

/-- After `Pa=01000000` the answer to `pa` is r0, which is 0. -/
theorem not_singleRegisterLaw_r10 :
    ¬ SingleRegisterLaw littleEndian (idleGdb 64) 10 (wordText littleEndian 1)
        (gdbPacketAnalysis littleEndian zeroLocals
          (packetText (chr 'P' :: (text ['a'] ++ chr '=' :: wordText littleEndian 1))
            (hex2 (checksum (chr 'P' :: (text ['a'] ++ chr '=' :: wordText littleEndian 1)))) ++ [0])
          (packetText (chr 'P' :: (text ['a'] ++ chr '=' :: wordText littleEndian 1))
            (hex2 (checksum (chr 'P' ::
              (text ['a'] ++ chr '=' :: wordText littleEndian 1))))).length
          (idleGdb 64)) := by
  intro hlaw
  have hregs := (singleRegisterLaw_registers (by decide) ⟨by decide, by decide, by decide⟩
    (wordDigits_wordText littleEndian 1) (fun h => absurd h (by decide)) (seals_hex2 _)).mp hlaw
  have hshown := hregs 10 (by decide)
  exact absurd hshown (by decide)

end Armator
