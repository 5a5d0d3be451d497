import Armator.Arch.Operand
import Armator.Semantics.Frame

set_option autoImplicit false

/-! # Write-back and unaligned words

No load or store moves its base register (`writeBackLaw_iff`), and words are transferred at the
unaligned address itself, although LDR rotates as if they were not (`unalignedLaw_iff`).
-/

namespace Armator

open Arch LastWrite

/-! ## The base register -/

/-- The offset of the load or store at the pc. -/
def ArmCore.offset (c : ArmCore) : BitVec 32 := Arch.offset c.word c.operand c.flags.c

/-- The base register after the step: moved by the offset where the word asks for it. -/
def WriteBackLaw (h : Host) (u : Locals) (c : ArmCore) : Prop :=
  (armStep h u c).state.reg.rData (rn c.word)
    = if WritesBack c.word then displaced c.word (c.reg.rData (rn c.word)) c.offset
      else c.reg.rData (rn c.word)

theorem displaced_eq_self {w base offset : BitVec 32} :
    displaced w base offset = base ↔ offset = 0 := by
  unfold displaced
  split
  · exact add_eq_left
  · exact sub_eq_self

/-- The step leaves the base register as it is. -/
theorem armStep_base (h : Host) (u : Locals) {c : ArmCore} (hin : c.InBounds)
    (hclass : classOf c.word = .loadStore) (hpc : rn c.word ≠ 15) (hrd : rn c.word ≠ rd c.word) :
    (armStep h u c).state.reg.rData (rn c.word) = c.reg.rData (rn c.word) := by
  rw [armStep_state]
  refine stepState_reg hpc ?_
  rw [hin.fetchedWord]
  rintro (⟨heq, -⟩ | ⟨-, hbranch⟩ | ⟨-, hbranch, -⟩)
  · exact hrd heq
  · rw [hclass] at hbranch
    cases hbranch
  · rw [hclass] at hbranch
    cases hbranch

/-- **The base is right exactly when the offset to write back is 0.** -/
theorem writeBackLaw_iff (h : Host) (u : Locals) {c : ArmCore} (hin : c.InBounds)
    (hclass : classOf c.word = .loadStore) (hpc : rn c.word ≠ 15) (hrd : rn c.word ≠ rd c.word) :
    WriteBackLaw h u c ↔ (WritesBack c.word → c.offset = 0) := by
  rw [WriteBackLaw, armStep_base h u hin hclass hpc hrd]
  by_cases hback : WritesBack c.word
  · rw [if_pos hback, eq_comm, displaced_eq_self]
    exact ⟨fun hzero _ => hzero, fun hdue => hdue hback⟩
  · rw [if_neg hback]
    exact iff_of_true rfl fun hn => absurd hn hback

/-- `LDR r1, [r2], #4`. -/
theorem writeBackLaw_iff_postIndexed :
    WriteBackLaw Host.masked ⟨0, 0, 0, 0, 0, 0⟩ (executing 0xE4921004 fun _ => 0) ↔
      (WritesBack 0xE4921004 → (executing 0xE4921004 fun _ => 0).offset = 0) :=
  writeBackLaw_iff (c := executing 0xE4921004 fun _ => 0) Host.masked ⟨0, 0, 0, 0, 0, 0⟩
    (by decide) (by decide) (by decide) (by decide)

/-- `LDR r1, [r2], #4` with 8 in `r2` leaves 8 there. -/
theorem not_writeBackLaw_postIndexed :
    ¬ WriteBackLaw Host.masked ⟨0, 0, 0, 0, 0, 0⟩ (executing 0xE4921004 fun _ => 8) := by
  intro hlaw
  have hbase : (armStep Host.masked ⟨0, 0, 0, 0, 0, 0⟩
      (executing 0xE4921004 fun _ => 8)).state.reg.rData (rn 0xE4921004) = 12 := hlaw
  exact absurd hbase (by decide)

/-! ## Unaligned words -/

/-- An address with its two low bits cleared. -/
def wordAddress (a : BitVec 32) : BitVec 32 := (a >>> 2) <<< 2

/-- On this host rotation by 0, which shifts by 32 to the left, is the identity. -/
def Host.RotatesByZero (h : Host) : Prop := ∀ v, ror h v 0 = v

theorem Host.masked_rotatesByZero : Host.masked.RotatesByZero := by
  intro v
  show v >>> 0 ||| v <<< 0 = v
  rw [BitVec.ushiftRight_zero, BitVec.shiftLeft_zero, BitVec.or_self]

/-- LDR loads the word at the word address of `a`, rotated by its two low bits, and STR writes
exactly that word. So an LDR at `b` of the same word address rotates what STR stored. -/
structure UnalignedLaw (h : Host) (u : Locals) (c : ArmCore) (a b : BitVec 32) (rd : Nat) :
    Prop where
  load : ∀ rdValue, (loadStoreByteOrWord h u a rdValue 1 0 rd c).state.reg.rData rd
    = (c.mem.wordAt (wordAddress a)).rotateRight (8 * (a.toNat % 4))
  stored : ∀ v, (loadStoreByteOrWord h u a v 0 0 rd c).state.mem.wordAt (wordAddress a) = v
  frame : ∀ v, ∀ i ∉ covered (wordAddress a) 4,
    (loadStoreByteOrWord h u a v 0 0 rd c).state.mem.address i = c.mem.address i
  reload : ∀ v rdValue, (loadStoreByteOrWord h u b rdValue 1 0 rd
      (loadStoreByteOrWord h u a v 0 0 rd c).state).state.reg.rData rd
    = v.rotateRight (8 * (b.toNat % 4))

theorem wordAddress_toNat (a : BitVec 32) : (wordAddress a).toNat = a.toNat - a.toNat % 4 := by
  have hlt := a.isLt
  rw [wordAddress, BitVec.toNat_shiftLeft, BitVec.toNat_ushiftRight, Nat.shiftLeft_eq,
    Nat.shiftRight_eq_div_pow]
  omega

theorem wordAddress_of_aligned {a : BitVec 32} (h : a.toNat % 4 = 0) : wordAddress a = a := by
  apply BitVec.eq_of_toNat_eq
  rw [wordAddress_toNat, h, Nat.sub_zero]

section

variable (h : Host) (u : Locals) (c : ArmCore) (a v : BitVec 32) {rd : Nat}

theorem loadStoreByteOrWord_STR (rd : Nat) :
    (loadStoreByteOrWord h u a v 0 0 rd c).state
      = { c with mem := (memoryWriteWord c.mem a v).2 } :=
  (loadStoreByteOrWord_runs h u a v 0 0 rd c).state

theorem loadStoreByteOrWord_LDR (rd : Nat) :
    (loadStoreByteOrWord h u a v 1 0 rd c).state.reg.rData rd = loadedWord h c.mem a rd := by
  rw [(loadStoreByteOrWord_runs h u a v 1 0 rd c).state]
  exact c.setReg_same rd _

/-- The amount LDR rotates by. -/
theorem rotation_toNat : ((8 * getBits a 1 0).setWidth 8).toNat = 8 * (a.toNat % 4) := by
  rw [BitVec.toNat_setWidth, BitVec.toNat_mul, getBits_toNat a (by decide)]
  show 8 * (a.toNat / 2 ^ 0 % 4) % 2 ^ 32 % 2 ^ 8 = _
  omega

/-- LDR rotates the word at `a` itself. -/
theorem loadedWord_eq {mem : Memory} {a : BitVec 32} (ha : a.toNat ≤ mem.size) (hrd : rd ≠ 15) :
    loadedWord h mem a rd = if a.toNat % 4 = 0 then ror h (mem.wordAt a) 0
      else (mem.wordAt a).rotateRight (8 * (a.toNat % 4)) := by
  have hdatum : mem.wordResult a = mem.wordAt a := by
    rw [← mem.wordResult_eq a 0, memoryReadWord_result ha, memoryReadWord_wordAt ha]
  have hamount := rotation_toNat a
  rw [loadedWord, if_neg hrd, hdatum]
  by_cases h0 : a.toNat % 4 = 0
  · rw [if_pos h0]
    congr 1
    apply BitVec.eq_of_toNat_eq
    rw [hamount, h0]
    rfl
  · rw [if_neg h0, ror_eq h _ (by omega) (by omega), hamount]

end

/-- The byte STRB stores. -/
theorem getBits_byte (x : BitVec 32) : (getBits x 7 0).setWidth 8 = x.setWidth 8 := by
  rw [getBits_eq_extract]
  apply BitVec.eq_of_getLsbD_eq
  intro i hi
  simp [hi, Nat.lt_trans hi (show 8 < 32 by decide)]

/-- What a word write stores is read back. -/
theorem wordAt_memoryWriteWord {mem : Memory} (horder : mem.isBigEndian = 0 ∨ mem.isBigEndian = 1)
    (a v : BitVec 32) : (memoryWriteWord mem a v).2.wordAt a = v := by
  have hread : (memoryWriteWord mem a v).2.joined a 4 = v.toNat :=
    memoryWrite_joined .word horder a v
  rw [Memory.wordAt, hread, BitVec.ofNat_toNat, BitVec.setWidth_eq]

/-- A write that covers the word of `a` only is aligned: the last of its cells, too, is in the
word. -/
theorem aligned_of_frame {mem : Memory} {a : BitVec 32}
    (hframe : ∀ v, ∀ i ∉ covered (wordAddress a) 4,
      (memoryWriteWord mem a v).2.address i = mem.address i) : a.toNat % 4 = 0 := by
  by_contra hne
  have hlast : (a + 3).toNat ∈ covered a 4 := mem_covered.mpr ⟨3, by decide, rfl⟩
  have hout : (a + 3).toNat ∉ covered (wordAddress a) 4 := by
    intro hmem
    have hlt := a.isLt
    have hword := wordAddress_toNat a
    have hbounds := covered_interval (by omega) hmem
    rw [hword, BitVec.toNat_add, show (3 : BitVec 32).toNat = 3 from rfl] at hbounds
    omega
  -- the cell is left alone, and holds a byte of whatever value is written
  have hcell (v : BitVec 32) : mem.address (a + 3).toNat ∈ split 4 v.toNat := by
    have hbytes : (covered a 4).map (memoryWriteWord mem a v).2.address
        = inOrder (mem.isBigEndian = 1) (split 4 v.toNat) := memoryWrite_covered .word mem a v
    rw [← mem_inOrder, ← hbytes, ← hframe v _ hout]
    exact List.mem_map_of_mem hlast
  have hzero : mem.address (a + 3).toNat = 0 :=
    List.eq_of_mem_replicate (n := 4) (hcell 0)
  have hones : mem.address (a + 3).toNat = 0xFF :=
    List.eq_of_mem_replicate (n := 4) (hcell 0xFFFFFFFF)
  rw [hzero] at hones
  exact absurd hones (by decide)

/-- A read at `b` that gives the word written at `a` is aligned: it covers the first cell. -/
theorem aligned_of_read {mem : Memory} {a b : BitVec 32} (hsame : wordAddress b = a)
    (hread : ∀ v, (memoryWriteWord mem a v).2.wordAt b = v) : b.toNat % 4 = 0 := by
  by_contra hne
  have hword := wordAddress_toNat b
  rw [hsame] at hword
  have hmissed : ∀ i ∈ covered b 4, i ≠ a.toNat := by
    intro i hi heq
    obtain ⟨k, hk, rfl⟩ := mem_covered.mp hi
    have hlt := b.isLt
    rw [BitVec.toNat_add, BitVec.toNat_ofNat] at heq
    omega
  -- two values that differ in the byte of that cell only
  have hrest {v : BitVec 32} {x : BitVec 8}
      (hv : inOrder (mem.isBigEndian = 1) (split 4 v.toNat) = [x, 0, 0, 0]) :
      ∀ i ∈ covered b 4, (memoryWriteWord mem a v).2.address i
        = applyUpdates ((covered (a + 1) 3).zip [0, 0, 0]) mem.address i := by
    intro i hi
    rw [memoryWriteWord_address, byteUpdates, covered_succ a 3, hv, List.zip_cons_cons,
      applyUpdates_cons]
    exact applyUpdates_congr _ (Function.update_of_ne (hmissed i hi) _ _)
  have hvalue (v : BitVec 32) {x : BitVec 8}
      (hv : inOrder (mem.isBigEndian = 1) (split 4 v.toNat) = [x, 0, 0, 0]) :
      v = BitVec.ofNat 32 (join (inOrder (mem.isBigEndian ≠ 0) ((covered b 4).map
        (applyUpdates ((covered (a + 1) 3).zip [0, 0, 0]) mem.address)))) := by
    have horder : (memoryWriteWord mem a v).2.isBigEndian = mem.isBigEndian :=
      memoryWrite_isBigEndian .word mem a v
    rw [← List.map_congr_left (hrest hv), ← horder]
    exact (hread v).symm
  obtain ⟨v, hv, hpos⟩ : ∃ v : BitVec 32,
      inOrder (mem.isBigEndian = 1) (split 4 v.toNat) = [1, 0, 0, 0] ∧ v ≠ 0 := by
    cases decide (mem.isBigEndian = 1) with
    | true => exact ⟨0x01000000, by decide, by decide⟩
    | false => exact ⟨1, by decide, by decide⟩
  have hzero : inOrder (mem.isBigEndian = 1) (split 4 (0 : BitVec 32).toNat) = [0, 0, 0, 0] := by
    cases decide (mem.isBigEndian = 1) <;> decide
  exact hpos ((hvalue v hv).trans (hvalue 0 hzero).symm)

/-- **Words are transferred as the law says exactly at aligned addresses**, on a host that
rotates by 0. -/
theorem unalignedLaw_iff (h : Host) (u : Locals) {c : ArmCore} {a b : BitVec 32} {rd : Nat}
    (horder : c.mem.isBigEndian = 0 ∨ c.mem.isBigEndian = 1) (hrd : rd ≠ 15)
    (hin : c.mem.Inside (wordAddress a) 4) (hsame : wordAddress b = wordAddress a) :
    UnalignedLaw h u c a b rd ↔ a.toNat % 4 = 0 ∧ b.toNat % 4 = 0 ∧ h.RotatesByZero := by
  have hbound {x : BitVec 32} (hx : wordAddress x = wordAddress a) : x.toNat ≤ c.mem.size := by
    have hword := congrArg BitVec.toNat hx
    rw [wordAddress_toNat, wordAddress_toNat] at hword
    have hsize : (wordAddress a).toNat + 4 ≤ c.mem.size := hin
    rw [wordAddress_toNat] at hsize
    omega
  have hsize (v : BitVec 32) : (memoryWriteWord c.mem a v).2.size = c.mem.size :=
    memoryWrite_size .word c.mem a v
  have hreload (v rdValue : BitVec 32) : (loadStoreByteOrWord h u b rdValue 1 0 rd
      (loadStoreByteOrWord h u a v 0 0 rd c).state).state.reg.rData rd
        = if b.toNat % 4 = 0 then ror h ((memoryWriteWord c.mem a v).2.wordAt b) 0
          else ((memoryWriteWord c.mem a v).2.wordAt b).rotateRight (8 * (b.toNat % 4)) := by
    rw [loadStoreByteOrWord_LDR, loadStoreByteOrWord_STR]
    exact loadedWord_eq h ((hbound hsame).trans_eq (hsize v).symm) hrd
  constructor
  · intro hlaw
    have hframe : ∀ v, ∀ i ∉ covered (wordAddress a) 4,
        (memoryWriteWord c.mem a v).2.address i = c.mem.address i := by
      intro v i hi
      have hleft := hlaw.frame v i hi
      rwa [loadStoreByteOrWord_STR] at hleft
    have ha : a.toNat % 4 = 0 := aligned_of_frame hframe
    have hb : b.toNat % 4 = 0 := by
      by_contra hne
      have hread : ∀ v, (memoryWriteWord c.mem a v).2.wordAt b = v := by
        intro v
        have hdue := hlaw.reload v 0
        rw [hreload, if_neg hne] at hdue
        exact BitShift.rotateRight_injective _ hdue
      exact hne (aligned_of_read (hsame.trans (wordAddress_of_aligned ha)) hread)
    refine ⟨ha, hb, fun v => ?_⟩
    have hba : b = a := by
      rw [← wordAddress_of_aligned hb, hsame, wordAddress_of_aligned ha]
    have hdue := hlaw.reload v 0
    rwa [hreload, if_pos hb, hba, wordAt_memoryWriteWord horder, ← hba, hb, Nat.mul_zero,
      BitShift.rotateRight_zero] at hdue
  · rintro ⟨ha, hb, hrotate⟩
    have hword := wordAddress_of_aligned ha
    have hba : b = a := by rw [← wordAddress_of_aligned hb, hsame, hword]
    refine ⟨fun rdValue => ?_, fun v => ?_, fun v i hi => ?_, fun v rdValue => ?_⟩
    · rw [loadStoreByteOrWord_LDR, loadedWord_eq h (hbound rfl) hrd, if_pos ha, hrotate, hword, ha,
        Nat.mul_zero, BitShift.rotateRight_zero]
    · rw [loadStoreByteOrWord_STR, hword]
      exact wordAt_memoryWriteWord horder a v
    · rw [hword] at hi
      rw [loadStoreByteOrWord_STR]
      exact memoryWrite_frame .word c.mem a v hi
    · rw [hreload, if_pos hb, hrotate, hba, wordAt_memoryWriteWord horder, ha, Nat.mul_zero,
        BitShift.rotateRight_zero]

/-- An aligned word of a memory of 64 bytes. -/
theorem unalignedLaw_iff_aligned :
    UnalignedLaw Host.masked ⟨0, 0, 0, 0, 0, 0⟩ (executing 0xE5921000 fun _ => 0) 8 8 1 ↔
      (8 : BitVec 32).toNat % 4 = 0 ∧ (8 : BitVec 32).toNat % 4 = 0 ∧ Host.masked.RotatesByZero :=
  unalignedLaw_iff Host.masked ⟨0, 0, 0, 0, 0, 0⟩ (.inl (by decide)) (by decide) (by decide) rfl

/-- `LDR r1, [r2]` loads from address 2, across the words at 0 and 4. -/
theorem not_unalignedLaw_load :
    armLoadStore Host.masked 0xE5921000 = 2 ∧
      ¬ UnalignedLaw Host.masked ⟨0, 0, 0, 0, 0, 0⟩ (executing 0xE5921000 fun _ => 0) 2 2 1 := by
  refine ⟨by decide, fun hlaw => ?_⟩
  exact absurd (hlaw.load 0) (by decide)

end Armator
