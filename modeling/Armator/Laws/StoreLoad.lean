import Armator.Laws.Address
import Armator.Laws.LoadStore

set_option autoImplicit false

/-! # A load after a store

Two steps: what STR or STRB stores, LDR or LDRB loads back, and nothing else changes
(`storeLoad`).
-/

namespace Armator

open Arch

/-- A store and a load of one width whose address fields agree. P and W are left open:
`arm_load_store` computes the same address for all their values. -/
structure StoreLoadPair (w w' : BitVec 32) : Prop where
  conditions : condField w = AL ∧ condField w' = AL
  classes : classOf w = .loadStore ∧ classOf w' = .loadStore
  store : w.getLsbD 20 = false
  load : w'.getLsbD 20 = true
  width : w'.getLsbD 22 = w.getLsbD 22
  rn : rn w' = rn w
  up : w'.getLsbD 23 = w.getLsbD 23
  form : w'.getLsbD 25 = w.getLsbD 25
  offset : field w' 11 0 = field w 11 0
  target : rd w' ≠ 15

/-- What a store with the bits of `w` keeps of a value: all of it, or its low byte. -/
def transferred (w value : BitVec 32) : BitVec 32 :=
  if w.getLsbD 22 then (value.setWidth 8).setWidth 32 else value

/-! ## The address -/

/-- In a word under AL bit 29 is set. -/
theorem bit29_of_al {w : BitVec 32} (hal : condField w = AL) : w.getLsbD 29 = true := by
  have hfield : w.toNat / 2 ^ 28 % 16 = 14 := hal
  rw [← BitVec.testBit_toNat, Nat.testBit_eq_decide_div_mod_eq, decide_eq_true_iff]
  omega

/-- The fields inside bits 11..0. -/
theorem offsetFields_congr {w w' : BitVec 32} (h : field w' 11 0 = field w 11 0) :
    shiftKind w' = shiftKind w ∧ shiftAmount w' = shiftAmount w ∧ rm w' = rm w := by
  simp only [field] at h
  refine ⟨?_, ?_, ?_⟩
  · have hfield : field w' 6 5 = field w 6 5 := by
      simp only [field]
      omega
    rw [shiftKind, shiftKind, hfield]
  · simp only [shiftAmount, field]
    omega
  · simp only [rm, field]
    omega

theorem StoreLoadPair.address {w w' : BitVec 32} (hpair : StoreLoadPair w w') (h : Host) :
    armLoadStore h w' = armLoadStore h w := by
  obtain ⟨hkind, hamount, hrm⟩ := offsetFields_congr hpair.offset
  have hbits := (bit29_of_al hpair.conditions.2).trans (bit29_of_al hpair.conditions.1).symm
  have hoffset : fieldOffset w' = fieldOffset w := by
    rw [fieldOffset, fieldOffset, Arch.offset, Arch.offset, hpair.form, hkind, hamount, hrm, hbits,
      hpair.offset]
  rw [armLoadStore_eq, armLoadStore_eq, fieldAddress, fieldAddress, displaced, displaced, hoffset,
    hpair.rn, hpair.up]

/-! ## One step -/

section

variable (h : Host) (u : Locals) {c : ArmCore}

/-- A load or store under AL applies its one write. -/
theorem stepState_loadStore (hin : c.InBounds) (hal : condField c.word = AL)
    (hclass : classOf c.word = .loadStore) :
    stepState h u c = applyWrites (loadStoreWrites h c.mem (armLoadStore h c.word)
      (c.operand (rd c.word)) (getBit c.word 20) (getBit c.word 22) (rd c.word)) c.fetched := by
  rw [stepState_of_inBounds h u hin, if_pos (conditionOf_al u hal c), executedWrites_of_class,
    hclass]
  dsimp only
  rw [c.regValue_fetched_eq, c.fetched_mem]

/-- A store writes its datum and leaves the registers to the fetch. -/
theorem stepState_store (hin : c.InBounds) (hal : condField c.word = AL)
    (hclass : classOf c.word = .loadStore) (h20 : c.word.getLsbD 20 = false) :
    stepState h u c = { c.fetched with
      mem := if c.word.getLsbD 22 then
          (memoryWriteByte c.mem (armLoadStore h c.word)
            ((c.operand (rd c.word)).setWidth 8)).2
        else (memoryWriteWord c.mem (armLoadStore h c.word) (c.operand (rd c.word))).2 } := by
  rw [stepState_loadStore h u hin hal hclass, getBit_eq_of_getLsbD h20]
  cases h22 : c.word.getLsbD 22 with
  | false =>
      rw [getBit_eq_of_getLsbD h22]
      rfl
  | true =>
      rw [getBit_eq_of_getLsbD h22, loadStoreWrites, getBits_byte]
      rfl

/-- A load writes its datum to Rd. -/
theorem stepState_load (hin : c.InBounds) (hal : condField c.word = AL)
    (hclass : classOf c.word = .loadStore) (h20 : c.word.getLsbD 20 = true) :
    stepState h u c = c.fetched.setReg (rd c.word)
      (if c.word.getLsbD 22 then (c.mem.byteResult (armLoadStore h c.word)).setWidth 32
        else loadedWord h c.mem (armLoadStore h c.word) (rd c.word)) := by
  rw [stepState_loadStore h u hin hal hclass, getBit_eq_of_getLsbD h20]
  cases h22 : c.word.getLsbD 22 with
  | false =>
      rw [getBit_eq_of_getLsbD h22]
      rfl
  | true =>
      rw [getBit_eq_of_getLsbD h22]
      rfl

end

/-! ## Memory after a store -/

section

variable {mem : Memory} {e : BitVec 32}

/-- LDR reads the word of an aligned STR. -/
theorem loadedWord_memoryWriteWord {h : Host} (hrotate : h.RotatesByZero)
    (horder : mem.isBigEndian = 0 ∨ mem.isBigEndian = 1) (hin : mem.Inside e 4)
    (he : e.toNat % 4 = 0) {rd : Nat} (hrd : rd ≠ 15) (v : BitVec 32) :
    loadedWord h (memoryWriteWord mem e v).2 e rd = v := by
  have hsize : (memoryWriteWord mem e v).2.size = mem.size := memoryWrite_size .word mem e v
  rw [loadedWord_eq h (hin.le.trans_eq hsize.symm) hrd, if_pos he, hrotate,
    wordAt_memoryWriteWord horder]

/-- LDRB reads the byte of STRB. -/
theorem byteResult_memoryWriteByte (hin : mem.Inside e 1) (b : BitVec 8) :
    (memoryWriteByte mem e b).2.byteResult e = b := by
  have hcell : (memoryWriteByte mem e b).2.get e = b := Function.update_self ..
  have hguard : e.toNat ≤ (memoryWriteByte mem e b).2.size := hin.le
  rw [Memory.byteResult, memoryReadByte, if_pos hguard]
  dsimp only
  rw [hcell, BitVec.ofInt_natCast, BitVec.ofNat_toNat, BitVec.setWidth_eq]

/-- A word away from a write keeps its value. -/
theorem wordAt_memoryWrite_of_disjoint (width : Width) (value : BitVec width.bits)
    {a : BitVec 32} (hdisjoint : ∀ i ∈ covered a 4, i ∉ covered e width.bytes) :
    (memoryWrite width mem e value).2.wordAt a = mem.wordAt a := by
  have hcells : (covered a 4).map (memoryWrite width mem e value).2.address
      = (covered a 4).map mem.address :=
    List.map_congr_left fun i hi => memoryWrite_frame width mem e value (hdisjoint i hi)
  rw [Memory.wordAt, Memory.joined, memoryWrite_isBigEndian, hcells]
  rfl

end

/-! ## Two steps -/

/-- The word behind the one at the pc. -/
def ArmCore.nextWord (c : ArmCore) : BitVec 32 := c.mem.wordAt (c.pc + 4)

/-- The cells the store at the pc covers. -/
def ArmCore.storedCells (h : Host) (c : ArmCore) : List Nat :=
  covered (armLoadStore h c.word) (accessBytes c.word)

/-- After the store at the pc and the load behind it: Rt holds what Rd had, and nothing else
changes but the stored cells and the pc. -/
structure StoreLoadLaw (h : Host) (u u' : Locals) (c : ArmCore) : Prop where
  loaded : (armStep h u' (armStep h u c).state).state.reg.rData (rd c.nextWord)
    = transferred c.word (c.operand (rd c.word))
  cells : ∀ i ∉ c.storedCells h,
    (armStep h u' (armStep h u c).state).state.mem.address i = c.mem.address i
  registers : ∀ r, r ≠ rd c.nextWord → r ≠ 15 →
    (armStep h u' (armStep h u c).state).state.reg.rData r = c.reg.rData r

section

variable {h : Host} {u : Locals} {c : ArmCore}

/-- The memory after the store, whatever its width. -/
theorem stepState_store_mem (hin : c.InBounds) (hal : condField c.word = AL)
    (hclass : classOf c.word = .loadStore) (h20 : c.word.getLsbD 20 = false) :
    ∃ (width : Width) (value : BitVec width.bits), width.bytes = accessBytes c.word ∧
      (stepState h u c).mem = (memoryWrite width c.mem (armLoadStore h c.word) value).2 := by
  rw [stepState_store h u hin hal hclass h20, accessBytes]
  cases c.word.getLsbD 22 with
  | false => exact ⟨.word, _, rfl, rfl⟩
  | true => exact ⟨.byte, _, rfl, rfl⟩

/-- The next step fetches the load: the store does not touch it. -/
theorem stepState_store_next (haligned : c.Aligned) (hin : c.InBounds)
    (hal : condField c.word = AL) (hclass : classOf c.word = .loadStore)
    (h20 : c.word.getLsbD 20 = false) (hnext : c.mem.Inside (c.pc + 4) 4)
    (hdisjoint : ∀ i ∈ covered (c.pc + 4) 4, i ∉ c.storedCells h) :
    (stepState h u c).InBounds ∧ (stepState h u c).word = c.nextWord := by
  have hpc : (stepState h u c).pc = c.pc + 4 := by
    have hreg : (stepState h u c).pc = c.fetched.pc := by
      rw [stepState_store h u hin hal hclass h20]
      rfl
    rw [hreg, ← haligned.fetchAddress]
    exact c.fetched_pc
  have haligned' : (stepState h u c).Aligned := by
    have hmod : c.pc.toNat % 4 = 0 := haligned
    rw [ArmCore.Aligned, hpc, BitVec.toNat_add, show (4 : BitVec 32).toNat = 4 from rfl]
    omega
  have hfetch : (stepState h u c).fetchAddress = c.pc + 4 := by
    rw [haligned'.fetchAddress, hpc]
  refine ⟨?_, ?_⟩
  · have hsize : (c.pc + 4).toNat + 4 ≤ c.mem.size := hnext
    rw [ArmCore.InBounds, hfetch, Memory.Inside, stepState_size]
    exact hsize
  · obtain ⟨width, value, hbytes, hmem⟩ := stepState_store_mem (h := h) (u := u) hin hal hclass h20
    rw [ArmCore.word, hfetch, hmem, ArmCore.nextWord]
    refine wordAt_memoryWrite_of_disjoint width value ?_
    rw [hbytes]
    exact hdisjoint

end

/-- **What a store leaves, the load of the same location loads**, and nothing else changes. -/
theorem storeLoad (h : Host) (hrotate : h.RotatesByZero) (u u' : Locals) {c : ArmCore}
    (haligned : c.Aligned) (horder : c.mem.isBigEndian = 0 ∨ c.mem.isBigEndian = 1)
    (hin : c.InBounds) (hnext : c.mem.Inside (c.pc + 4) 4)
    (hpair : StoreLoadPair c.word c.nextWord)
    (hdata : c.mem.Inside (armLoadStore h c.word) (accessBytes c.word))
    (hmultiple : (armLoadStore h c.word).toNat % accessBytes c.word = 0)
    (hdisjoint : ∀ i ∈ covered (c.pc + 4) 4, i ∉ c.storedCells h) :
    StoreLoadLaw h u u' c := by
  obtain ⟨hal, hal'⟩ := hpair.conditions
  obtain ⟨hclass, hclass'⟩ := hpair.classes
  have hstore := stepState_store h u hin hal hclass hpair.store
  obtain ⟨hin', hword⟩ := stepState_store_next (u := u) haligned hin hal hclass hpair.store hnext
    hdisjoint
  have hload := stepState_load h u' hin' (by rw [hword]; exact hal') (by rw [hword]; exact hclass')
    (by rw [hword]; exact hpair.load)
  rw [hword, hpair.address h, hpair.width] at hload
  have hstep : (armStep h u' (armStep h u c).state).state = stepState h u' (stepState h u c) := by
    rw [armStep_state, armStep_state]
  refine ⟨?_, fun i hi => ?_, fun r hr hpc => ?_⟩
  · rw [hstep, hload, ArmCore.setReg_same, hstore, transferred]
    dsimp only
    -- a byte needs neither the alignment nor the byte order
    cases h22 : c.word.getLsbD 22 with
    | false =>
        have hbytes : accessBytes c.word = 4 := by
          rw [accessBytes, h22]
          rfl
        rw [hbytes] at hdata hmultiple
        exact loadedWord_memoryWriteWord hrotate horder hdata hmultiple hpair.target _
    | true =>
        have hbytes : accessBytes c.word = 1 := by
          rw [accessBytes, h22]
          rfl
        rw [hbytes] at hdata
        exact congrArg (BitVec.setWidth 32) (byteResult_memoryWriteByte hdata _)
  · obtain ⟨width, value, hbytes, hmem⟩ :=
      stepState_store_mem (h := h) (u := u) hin hal hclass hpair.store
    rw [ArmCore.storedCells, ← hbytes] at hi
    rw [hstep, hload, ArmCore.setReg_mem, ArmCore.fetched_mem, hmem]
    exact memoryWrite_frame width c.mem _ value hi
  · rw [hstep, hload, ArmCore.setReg_of_ne _ hr, ArmCore.fetched_of_ne _ hpc, hstore]
    exact c.fetched_of_ne hpc

/-- `STR r1, [r4, #16]` at 0 and `LDR r3, [r4, #16]` at 4, with 5 in every register. -/
def storingAndLoading : ArmCore :=
  { executing 0xE5841010 fun _ => 5 with
    mem := (memoryWriteWord (executing 0xE5841010 fun _ => 5).mem 4 0xE5943010).2 }

theorem storeLoad_str_ldr :
    (armStep Host.masked ⟨0, 0, 0, 0, 0, 0⟩ (armStep Host.masked ⟨0, 0, 0, 0, 0, 0⟩
      storingAndLoading).state).state.reg.rData 3 = 5 := by
  have hlaw : StoreLoadLaw Host.masked ⟨0, 0, 0, 0, 0, 0⟩ ⟨0, 0, 0, 0, 0, 0⟩ storingAndLoading :=
    storeLoad Host.masked Host.masked_rotatesByZero _ _ (by decide) (.inl (by decide)) (by decide)
      (by decide) ⟨by decide, by decide, by decide, by decide, by decide, by decide, by decide,
        by decide, by decide, by decide⟩ (by decide) (by decide) (by decide)
  exact hlaw.loaded

end Armator
