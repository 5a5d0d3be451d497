import Armator.Semantics.ByteMemory
import Armator.Semantics.Writes

set_option autoImplicit false

/-! # The laws of the memory

Within its bounds the memory is a byte array under any run of writes
(`memoryRead_after_writes`). Its bounds checks are weaker than `memory.h` says: a read is
refused only when the address itself is above the size, a write never (`boundsLaw_iff`). The
reads return the value where their status is due (`readStatusLaw_iff`).
-/

namespace Armator

open LastWrite

/-! ## Runs of writes -/

/-- A call of a write function whose whole range is below `size`. -/
structure InsideWrite (size : Nat) where
  width : Width
  address : BitVec 32
  value : BitVec width.bits
  inside : address.toNat + width.bytes ≤ size

variable {size : Nat}

def InsideWrite.call (mem : Memory) (w : InsideWrite size) : Memory :=
  (memoryWrite w.width mem w.address w.value).2

def runWrites (ws : List (InsideWrite size)) (mem : Memory) : Memory :=
  ws.foldl InsideWrite.call mem

def InsideWrite.updates (isBigEndian : Int) (w : InsideWrite size) : List (Nat × BitVec 8) :=
  byteUpdates isBigEndian w.address w.width.bytes w.value.toNat

/-- The byte most recently written to the cell `i`, or its initial content in `mem`. -/
def byteAfter (ws : List (InsideWrite size)) (mem : Memory) (i : Nat) : BitVec 8 :=
  (lastWrite (ws.flatMap (InsideWrite.updates mem.isBigEndian)) i).getD (mem.address i)

theorem runWrites_size (ws : List (InsideWrite size)) (mem : Memory) :
    (runWrites ws mem).size = mem.size := by
  induction ws generalizing mem with
  | nil => rfl
  | cons w ws ih => exact (ih (w.call mem)).trans (memoryWrite_size _ _ _ _)

theorem runWrites_isBigEndian (ws : List (InsideWrite size)) (mem : Memory) :
    (runWrites ws mem).isBigEndian = mem.isBigEndian := by
  induction ws generalizing mem with
  | nil => rfl
  | cons w ws ih => exact (ih (w.call mem)).trans (memoryWrite_isBigEndian _ _ _ _)

/-- A run is the list of the byte updates of its calls. -/
theorem runWrites_address (ws : List (InsideWrite size)) (mem : Memory) :
    (runWrites ws mem).address
      = applyUpdates (ws.flatMap (InsideWrite.updates mem.isBigEndian)) mem.address := by
  induction ws generalizing mem with
  | nil => rfl
  | cons w ws ih =>
      have hcall : (w.call mem).address
          = applyUpdates (w.updates mem.isBigEndian) mem.address :=
        memoryWrite_address _ _ _ _
      have horder : (w.call mem).isBigEndian = mem.isBigEndian := memoryWrite_isBigEndian _ _ _ _
      -- the byte order is that of the first memory all along the run
      have hrest := ih (w.call mem)
      rw [horder, hcall] at hrest
      rw [List.flatMap_cons, applyUpdates_append, ← hrest]
      rfl

theorem runWrites_byte (ws : List (InsideWrite size)) (mem : Memory) (i : Nat) :
    (runWrites ws mem).address i = byteAfter ws mem i := by
  rw [runWrites_address, applyUpdates_eq, byteAfter]

theorem memoryCreate_isBigEndian (block : Option (Nat → BitVec 8)) (size : Nat)
    (isBigEndian : Int) : (memoryCreate block size isBigEndian).isBigEndian = isBigEndian := by
  cases block <;> rfl

/-- **The memory is a byte array.** After any run of inside writes, an inside read of any
width stores the join, in the byte order of the memory, of the bytes last written to the
cells it covers. -/
theorem memoryRead_after_writes (block : Option (Nat → BitVec 8)) (size : Nat)
    (isBigEndian : Int) (horder : isBigEndian = 0 ∨ isBigEndian = 1)
    (ws : List (InsideWrite (memoryCreate block size isBigEndian).size)) (width : Width)
    (address : BitVec 32) (value : BitVec width.bits)
    (hread : (memoryCreate block size isBigEndian).Inside address width.bytes) :
    (memoryRead width (runWrites ws (memoryCreate block size isBigEndian)) address value).2.toNat
      = join (inOrder (isBigEndian = 1) ((covered address width.bytes).map
          (byteAfter ws (memoryCreate block size isBigEndian)))) := by
  have hguard : address.toNat ≤ (runWrites ws (memoryCreate block size isBigEndian)).size := by
    rw [runWrites_size]
    exact hread.le
  have hflag : decide (isBigEndian ≠ 0) = decide (isBigEndian = 1) := by
    rcases horder with rfl | rfl <;> rfl
  rw [memoryRead_value width hguard, Memory.joined, runWrites_isBigEndian,
    memoryCreate_isBigEndian, hflag, funext (runWrites_byte ws _)]

/-- A word and a byte over its second byte, in a little endian memory of 8 bytes. -/
def overlappingWrites : List (InsideWrite (memoryCreate (some fun _ => 0) 8 0).size) :=
  [⟨.word, 0, (0x11223344 : BitVec 32), by decide⟩, ⟨.byte, 1, (0xAA : BitVec 8), by decide⟩]

theorem memoryRead_after_overlappingWrites :
    (memoryRead .half (runWrites overlappingWrites (memoryCreate (some fun _ => 0) 8 0)) 1
        (0 : BitVec 16)).2.toNat
      = join (inOrder ((0 : Int) = 1) ((covered 1 2).map
          (byteAfter overlappingWrites (memoryCreate (some fun _ => 0) 8 0)))) :=
  memoryRead_after_writes (some fun _ => 0) 8 0 (.inl rfl) _ .half 1 _ (by decide)

/-! ## Bounds and failures -/

/-- A read depends on the cells below the size only, and fails without effect unless its
whole range is inside. -/
def ReadBounds (width : Width) (mem : Memory) (address : BitVec 32) : Prop :=
  ∀ value,
    (∀ mem' : Memory, mem'.isBigEndian = mem.isBigEndian → mem'.size = mem.size →
      (∀ i < mem.size, mem'.address i = mem.address i) →
      memoryRead width mem' address value = memoryRead width mem address value) ∧
    (¬ mem.Inside address width.bytes → memoryRead width mem address value = (-1, value))

/-- A write changes cells below the size only, and fails without effect unless its whole
range is inside. -/
def WriteBounds (width : Width) (mem : Memory) (address : BitVec 32) : Prop :=
  ∀ value,
    (∀ i, mem.size ≤ i →
      (memoryWrite width mem address value).2.address i = mem.address i) ∧
    (¬ mem.Inside address width.bytes → memoryWrite width mem address value = (-1, mem))

def BoundsLaw : Access → Width → Memory → BitVec 32 → Prop
  | .read => ReadBounds
  | .write => WriteBounds

/-- Two memories that agree on the order, the size and the cells in `cells`. -/
structure Memory.Agree (cells : List Nat) (mem mem' : Memory) : Prop where
  isBigEndian : mem'.isBigEndian = mem.isBigEndian
  size : mem'.size = mem.size
  bytes : ∀ i ∈ cells, mem'.address i = mem.address i

variable {mem mem' : Memory} {address : BitVec 32}

theorem memoryReadByte_congr (h : mem.Agree (covered address 1) mem') (value : BitVec 8) :
    memoryReadByte mem' address value = memoryReadByte mem address value := by
  have hbytes := h.bytes
  simp only [covered_one, List.forall_mem_cons] at hbytes
  have h₀ : mem'.get address = mem.get address := hbytes.1
  rw [memoryReadByte, memoryReadByte, h.size, h₀]

theorem memoryReadHalf_congr (h : mem.Agree (covered address 2) mem') (value : BitVec 16) :
    memoryReadHalf mem' address value = memoryReadHalf mem address value := by
  have hbytes := h.bytes
  simp only [covered_two, List.forall_mem_cons] at hbytes
  have h₀ : mem'.get address = mem.get address := hbytes.1
  have h₁ : mem'.get (address + 1) = mem.get (address + 1) := hbytes.2.1
  rw [memoryReadHalf, memoryReadHalf, h.size, h.isBigEndian, h₀, h₁]

theorem memoryReadWord_congr (h : mem.Agree (covered address 4) mem') (value : BitVec 32) :
    memoryReadWord mem' address value = memoryReadWord mem address value := by
  have hbytes := h.bytes
  simp only [covered_four, List.forall_mem_cons] at hbytes
  have h₀ : mem'.get address = mem.get address := hbytes.1
  have h₁ : mem'.get (address + 1) = mem.get (address + 1) := hbytes.2.1
  have h₂ : mem'.get (address + 2) = mem.get (address + 2) := hbytes.2.2.1
  have h₃ : mem'.get (address + 3) = mem.get (address + 3) := hbytes.2.2.2.1
  rw [memoryReadWord, memoryReadWord, h.size, h.isBigEndian, h₀, h₁, h₂, h₃]

/-- A read sees nothing but the covered cells. -/
theorem memoryRead_congr (width : Width) (h : mem.Agree (covered address width.bytes) mem')
    (value : BitVec width.bits) :
    memoryRead width mem' address value = memoryRead width mem address value := by
  cases width with
  | byte => exact memoryReadByte_congr h value
  | half => exact memoryReadHalf_congr h value
  | word => exact memoryReadWord_congr h value

/-- Whatever the bytes are, a read whose guard passes overwrites some output variable. -/
theorem exists_memoryRead_ne (width : Width) (h : address.toNat ≤ mem.size) :
    ∃ value, memoryRead width mem address value ≠ (-1, value) := by
  by_contra hall
  push Not at hall
  have hvalue (value : BitVec width.bits) : value.toNat = mem.joined address width.bytes := by
    rw [← memoryRead_value width h value, hall value]
  -- the join of the covered bytes would be both 0 and 1
  have hzero := hvalue (BitVec.ofNat _ 0)
  have hone := hvalue (BitVec.ofNat _ 1)
  rw [← hone, BitVec.toNat_ofNat, BitVec.toNat_ofNat] at hzero
  cases width <;> exact absurd hzero (by decide)

theorem readBounds_iff (width : Width) (mem : Memory) (address : BitVec 32) :
    ReadBounds width mem address ↔
      mem.Inside address width.bytes ∨ mem.size < address.toNat := by
  constructor
  · intro hlaw
    by_contra hcond
    rw [not_or, Nat.not_lt] at hcond
    obtain ⟨value, hne⟩ := exists_memoryRead_ne width hcond.2
    exact hne ((hlaw value).2 hcond.1)
  · rintro (hinside | habove) value
    · refine ⟨fun mem' horder hsize hbytes => ?_, fun hnot => absurd hinside hnot⟩
      exact memoryRead_congr width
        ⟨horder, hsize, fun i hi => hbytes i (hinside.covered_lt hi)⟩ value
    · have hguard : ¬ address.toNat ≤ mem.size := Nat.not_le.mpr habove
      refine ⟨fun mem' _ hsize _ => ?_, fun _ => memoryRead_refused width hguard value⟩
      rw [memoryRead_refused width hguard, memoryRead_refused width (by rwa [hsize])]

theorem writeBounds_iff (width : Width) (mem : Memory) (address : BitVec 32) :
    WriteBounds width mem address ↔ mem.Inside address width.bytes := by
  constructor
  · intro hlaw
    by_contra hnot
    have hfail := congrArg Prod.fst ((hlaw 0).2 hnot)
    rw [memoryWrite_status] at hfail
    exact absurd hfail (by simp)
  · intro hinside value
    refine ⟨fun i hi => memoryWrite_frame width mem address value fun hc => ?_,
      fun hnot => absurd hinside hnot⟩
    exact absurd (hinside.covered_lt hc) (Nat.not_lt.mpr hi)

/-- **The bounds law holds exactly for inside ranges, and for reads above the size.** The
guard of the reads looks at the first byte only and lets the address equal the size; the
writes have none. -/
theorem boundsLaw_iff (access : Access) (width : Width) (mem : Memory) (address : BitVec 32) :
    BoundsLaw access width mem address ↔
      mem.Inside address width.bytes ∨ (access = .read ∧ mem.size < address.toNat) := by
  cases access with
  | read => simpa [BoundsLaw] using readBounds_iff width mem address
  | write => simpa [BoundsLaw] using writeBounds_iff width mem address

/-- A byte read at the size of a four byte memory is not refused. -/
theorem not_boundsLaw_at_size :
    ¬ BoundsLaw .read .byte (memoryCreate (some fun _ => 0) 4 0) 4 := by
  intro hlaw
  have hfail := (hlaw (0xFF : BitVec 8)).2 (by decide)
  exact absurd hfail (by decide)

/-! ## The status of a read -/

/-- The datum the callers of a read go on with: the dispatcher and LDR take a word, LDRB a
byte. No instruction reads a half. -/
def Memory.callerDatum (mem : Memory) (address : BitVec 32) :
    (width : Width) → Option (BitVec width.bits)
  | .byte => some (mem.byteResult address)
  | .half => none
  | .word => some (mem.wordResult address)

/-- The return value tells a success from a failure, whatever the bytes are, and the datum is
the content of the output variable. -/
structure ReadStatusLaw (width : Width) (mem : Memory) (address : BitVec 32) : Prop where
  success : mem.Inside address width.bytes →
    ∀ value, (memoryRead width mem address value).1 = 0
  failure : ∀ value, (memoryRead width mem address value).1 = -1 →
    ¬ mem.Inside address width.bytes
  datum : mem.Inside address width.bytes →
    ∀ value, ∀ d ∈ mem.callerDatum address width, d = (memoryRead width mem address value).2

theorem join_eq_zero (bytes : List (BitVec 8)) : join bytes = 0 ↔ ∀ b ∈ bytes, b = 0 := by
  induction bytes with
  | nil => exact iff_of_true rfl fun _ hb => by cases hb
  | cons b bytes ih =>
      have hb : b.toNat = 0 ↔ b = 0 := by
        rw [← BitVec.toNat_inj]
        rfl
      have hpos : 0 < 256 ^ bytes.length := Nat.pow_pos (by decide)
      rw [join_cons, List.forall_mem_cons, ← hb, ← ih, Nat.add_eq_zero_iff, Nat.mul_eq_zero]
      simp only [Nat.ne_of_gt hpos, false_or]

theorem joined_eq_zero (mem : Memory) (address : BitVec 32) (n : Nat) :
    mem.joined address n = 0 ↔ ∀ i ∈ covered address n, mem.address i = 0 := by
  rw [Memory.joined, join_eq_zero]
  simp only [mem_inOrder]
  exact List.forall_mem_map

/-- A read whose guard passes returns 0 when the value it stores is 0. -/
theorem memoryRead_status_zero (width : Width) {mem : Memory} {address : BitVec 32}
    (h : address.toNat ≤ mem.size) (value : BitVec width.bits) :
    (memoryRead width mem address value).1 = 0 ↔ (memoryRead width mem address value).2 = 0 := by
  have hnat {w : Nat} (x : BitVec w) : (x.toNat : Int) = 0 ↔ x = 0 := by
    rw [Int.natCast_eq_zero, ← BitVec.toNat_inj]
    rfl
  cases width with
  | byte =>
      simp only [memoryRead, memoryReadByte, if_pos h]
      exact hnat _
  | half =>
      simp only [memoryRead, memoryReadHalf, if_pos h]
      split <;> exact hnat _
  | word =>
      have hint (x : BitVec 32) : x.toInt = 0 ↔ x = 0 := BitVec.toInt_inj (y := 0)
      simp only [memoryRead, memoryReadWord, if_pos h]
      split <;> exact hint _

/-- It returns the value it stores, so that the callers find the datum in either. -/
theorem callerDatum_eq (width : Width) {mem : Memory} {address : BitVec 32}
    (h : address.toNat ≤ mem.size) (value : BitVec width.bits) {d : BitVec width.bits}
    (hd : d ∈ mem.callerDatum address width) : d = (memoryRead width mem address value).2 := by
  cases width with
  | byte =>
      rw [← Option.mem_some.mp hd, ← mem.byteResult_eq address value]
      simp only [memoryRead, memoryReadByte, if_pos h]
      rw [BitVec.ofInt_natCast, BitVec.ofNat_toNat, BitVec.setWidth_eq]
  | half => cases hd
  | word =>
      rw [← Option.mem_some.mp hd, ← mem.wordResult_eq address value]
      exact memoryReadWord_result h value

/-- **The status of a read is right exactly when the bytes that are read are all 0.** In every
other case the value is returned in its place, `0xFFFFFFFF` as the status of a failure. -/
theorem readStatusLaw_iff (width : Width) (mem : Memory) (address : BitVec 32) :
    ReadStatusLaw width mem address ↔
      (mem.Inside address width.bytes → ∀ i ∈ covered address width.bytes, mem.address i = 0) := by
  have hvalue (hinside : mem.Inside address width.bytes) (value : BitVec width.bits) :
      (memoryRead width mem address value).1 = 0 ↔
        ∀ i ∈ covered address width.bytes, mem.address i = 0 := by
    rw [memoryRead_status_zero width hinside.le, ← joined_eq_zero,
      ← memoryRead_value width hinside.le value, ← BitVec.toNat_inj]
    rfl
  constructor
  · intro hlaw hinside
    exact (hvalue hinside 0).mp (hlaw.success hinside 0)
  · intro hzero
    refine ⟨fun hinside value => (hvalue hinside value).mpr (hzero hinside),
      fun value hfail hinside => ?_,
      fun hinside value d hd => callerDatum_eq width hinside.le value hd⟩
    rw [(hvalue hinside value).mpr (hzero hinside)] at hfail
    cases hfail

/-- The word `0xFFFFFFFF` is read as a failure. -/
theorem not_readStatusLaw_ones :
    ¬ ReadStatusLaw .word (memoryCreate (some fun _ => 0xFF) 4 0) 0 := by
  intro hlaw
  exact hlaw.failure (0 : BitVec 32) (by decide) (by decide)

end Armator
