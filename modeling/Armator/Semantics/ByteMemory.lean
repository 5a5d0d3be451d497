import Armator.Basic.Memory
import Armator.Lib.LastWrite
import Mathlib.Tactic.Ring

set_option autoImplicit false

/-! # The memory as an array of bytes

The abstract view of `memory.c`: a read joins the bytes of the cells it covers
(`memoryRead_value`), a write is a list of byte updates (`memoryWrite_address`). Addresses are
`uint32_t` values, so the cells covered by an access wrap at `2^32`.
-/

namespace Armator

open LastWrite

/-- A memory is its cells, their number and their order. -/
theorem Memory.eq_of_cells {mem mem' : Memory} (horder : mem.isBigEndian = mem'.isBigEndian)
    (hsize : mem.size = mem'.size) (hcells : ∀ i, mem.address i = mem'.address i) : mem = mem' := by
  obtain ⟨isBigEndian, address, size⟩ := mem
  obtain ⟨isBigEndian', address', size'⟩ := mem'
  cases horder
  cases hsize
  cases funext hcells
  rfl

/-! ## Bytes and values -/

/-- The number whose base-256 digits are `bytes`, most significant first. -/
def join (bytes : List (BitVec 8)) : Nat := bytes.foldl (fun v b => 256 * v + b.toNat) 0

/-- The `n` low bytes of `v`, most significant first. -/
def split (n v : Nat) : List (BitVec 8) :=
  (List.range n).reverse.map fun k => BitVec.ofNat 8 (v / 256 ^ k)

/-- Bytes listed from the most significant one, put in the order of their addresses (or back). -/
def inOrder (bigEndian : Bool) (bytes : List (BitVec 8)) : List (BitVec 8) :=
  if bigEndian then bytes else bytes.reverse

/-- Bytes in an order that is decided. -/
theorem inOrder_decide (P : Prop) [Decidable P] (bytes : List (BitVec 8)) :
    inOrder P bytes = if P then bytes else bytes.reverse := by
  by_cases hP : P
  · rw [inOrder, decide_eq_true hP, if_pos rfl, if_pos hP]
  · rw [inOrder, decide_eq_false hP, if_neg Bool.false_ne_true, if_neg hP]

theorem inOrder_inOrder (bigEndian : Bool) (bytes : List (BitVec 8)) :
    inOrder bigEndian (inOrder bigEndian bytes) = bytes := by
  cases bigEndian with
  | true => rfl
  | false => exact List.reverse_reverse bytes

theorem inOrder_length (bigEndian : Bool) (bytes : List (BitVec 8)) :
    (inOrder bigEndian bytes).length = bytes.length := by
  cases bigEndian with
  | true => rfl
  | false => exact List.length_reverse

theorem mem_inOrder {bigEndian : Bool} {bytes : List (BitVec 8)} {b : BitVec 8} :
    b ∈ inOrder bigEndian bytes ↔ b ∈ bytes := by
  cases bigEndian with
  | true => exact Iff.rfl
  | false => exact List.mem_reverse

theorem split_length (n v : Nat) : (split n v).length = n := by
  simp [split]

theorem split_succ (n v : Nat) : split (n + 1) v = BitVec.ofNat 8 (v / 256 ^ n) :: split n v := by
  simp [split, List.range_succ]

theorem join_cons (b : BitVec 8) (bytes : List (BitVec 8)) :
    join (b :: bytes) = 256 ^ bytes.length * b.toNat + join bytes := by
  have hfrom : ∀ (l : List (BitVec 8)) (v : Nat),
      l.foldl (fun v b => 256 * v + b.toNat) v = 256 ^ l.length * v + join l := by
    intro l
    induction l with
    | nil => intro v; simp [join]
    | cons c l ih =>
        intro v
        have hjoin : join (c :: l) = 256 ^ l.length * (256 * 0 + c.toNat) + join l := ih _
        rw [List.foldl_cons, ih, hjoin, List.length_cons]
        ring
  rw [join, List.foldl_cons, hfrom]
  simp

theorem join_split (n v : Nat) : join (split n v) = v % 256 ^ n := by
  induction n with
  | zero => rw [pow_zero, Nat.mod_one]; rfl
  | succ n ih =>
      have hsplit : v % 256 ^ (n + 1) = v % 256 ^ n + 256 ^ n * (v / 256 ^ n % 256) :=
        Nat.mod_pow_succ
      rw [split_succ, join_cons, split_length, ih, BitVec.toNat_ofNat, hsplit, Nat.add_comm]

theorem join_lt (bytes : List (BitVec 8)) : join bytes < 256 ^ bytes.length := by
  induction bytes with
  | nil => exact Nat.one_pos
  | cons b bytes ih =>
      have hb : b.toNat + 1 ≤ 256 := b.isLt
      calc join (b :: bytes) = 256 ^ bytes.length * b.toNat + join bytes := join_cons b bytes
        _ < 256 ^ bytes.length * b.toNat + 256 ^ bytes.length := Nat.add_lt_add_left ih _
        _ = 256 ^ bytes.length * (b.toNat + 1) := by rw [Nat.mul_succ]
        _ ≤ 256 ^ bytes.length * 256 := Nat.mul_le_mul_left _ hb
        _ = 256 ^ (b :: bytes).length := by rw [List.length_cons, Nat.pow_succ]

/-- The low bytes do not depend on the high ones. -/
theorem split_add (n a v : Nat) : split n (256 ^ n * a + v) = split n v := by
  refine List.map_congr_left fun k hk => ?_
  rw [List.mem_reverse, List.mem_range] at hk
  obtain ⟨d, rfl⟩ := Nat.exists_eq_add_of_lt hk
  have hhigh : 256 ^ (k + d + 1) * a = 256 ^ k * (256 * (256 ^ d * a)) := by ring
  have hpos : 0 < 256 ^ k := Nat.pow_pos (by decide)
  refine BitVec.eq_of_toNat_eq ?_
  rw [hhigh, Nat.mul_add_div hpos, BitVec.toNat_ofNat, BitVec.toNat_ofNat]
  exact Nat.mul_add_mod 256 _ _

theorem split_join (bytes : List (BitVec 8)) : split bytes.length (join bytes) = bytes := by
  induction bytes with
  | nil => rfl
  | cons b bytes ih =>
      have hlt := join_lt bytes
      have hpos : 0 < 256 ^ bytes.length := Nat.pow_pos (by decide)
      rw [List.length_cons, split_succ, join_cons, split_add, ih, Nat.mul_add_div hpos,
        Nat.div_eq_of_lt hlt, Nat.add_zero, BitVec.ofNat_toNat, BitVec.setWidth_eq]

/-- Behind the next address. -/
theorem next_add_ofNat (address : BitVec 32) (k : Nat) :
    address + 1 + BitVec.ofNat 32 k = address + BitVec.ofNat 32 (k + 1) := by
  calc address + 1 + BitVec.ofNat 32 k = address + (1 + BitVec.ofNat 32 k) := BitVec.add_assoc ..
    _ = address + BitVec.ofNat 32 (1 + k) := by rw [BitVec.ofNat_add]; rfl
    _ = address + BitVec.ofNat 32 (k + 1) := by rw [Nat.add_comm]

/-- The cells covered by the `n` bytes from `address`. -/
def covered (address : BitVec 32) (n : Nat) : List Nat :=
  (List.range n).map fun k => (address + BitVec.ofNat 32 k).toNat

theorem mem_covered {address : BitVec 32} {n i : Nat} :
    i ∈ covered address n ↔ ∃ k < n, i = (address + BitVec.ofNat 32 k).toNat := by
  simp [covered, eq_comm]

theorem covered_succ (address : BitVec 32) (n : Nat) :
    covered address (n + 1) = address.toNat :: covered (address + 1) n := by
  rw [covered, List.range_succ_eq_map, List.map_cons, List.map_map, BitVec.add_zero, covered]
  congr 1
  exact List.map_congr_left fun k _ => congrArg BitVec.toNat (next_add_ofNat address k).symm

theorem covered_one (address : BitVec 32) : covered address 1 = [address.toNat] := by
  simp only [covered, List.range_one, List.map_cons, List.map_nil]
  rw [BitVec.add_zero]

theorem covered_two (address : BitVec 32) :
    covered address 2 = [address.toNat, (address + 1).toNat] := by
  have hrange : List.range 2 = [0, 1] := rfl
  simp only [covered, hrange, List.map_cons, List.map_nil]
  rw [BitVec.add_zero]
  rfl

theorem covered_four (address : BitVec 32) :
    covered address 4 = [address.toNat, (address + 1).toNat, (address + 2).toNat,
      (address + 3).toNat] := by
  have hrange : List.range 4 = [0, 1, 2, 3] := rfl
  simp only [covered, hrange, List.map_cons, List.map_nil]
  rw [BitVec.add_zero]
  rfl

/-- The cells covered are distinct. -/
theorem covered_nodup (address : BitVec 32) {n : Nat} (hn : n ≤ 2 ^ 32) :
    (covered address n).Nodup := by
  refine List.Nodup.map_on (fun k hk l hl heq => ?_) List.nodup_range
  have hk' : k < n := List.mem_range.mp hk
  have hl' : l < n := List.mem_range.mp hl
  have hsame : BitVec.ofNat 32 k = BitVec.ofNat 32 l :=
    add_left_cancel (BitVec.eq_of_toNat_eq heq)
  have hnat := congrArg BitVec.toNat hsame
  rw [BitVec.toNat_ofNat, BitVec.toNat_ofNat] at hnat
  omega

theorem covered_length (address : BitVec 32) (n : Nat) : (covered address n).length = n := by
  rw [covered, List.length_map, List.length_range]

/-- The `n` bytes from `address` are inside the memory. -/
def Memory.Inside (mem : Memory) (address : BitVec 32) (n : Nat) : Prop :=
  address.toNat + n ≤ mem.size

instance (mem : Memory) (address : BitVec 32) (n : Nat) : Decidable (mem.Inside address n) :=
  inferInstanceAs (Decidable (_ ≤ _))

theorem Memory.Inside.le {mem : Memory} {address : BitVec 32} {n : Nat}
    (h : mem.Inside address n) : address.toNat ≤ mem.size :=
  Nat.le_trans (Nat.le_add_right _ _) h

theorem next_toNat_le (address : BitVec 32) : (address + 1).toNat ≤ address.toNat + 1 := by
  rw [BitVec.toNat_add]
  exact Nat.mod_le _ _

/-- What an inside access leaves after its first byte is inside. -/
theorem Memory.Inside.next {mem : Memory} {address : BitVec 32} {n : Nat}
    (h : mem.Inside address (n + 1)) : mem.Inside (address + 1) n := by
  have hle := next_toNat_le address
  have hsize : address.toNat + (n + 1) ≤ mem.size := h
  show (address + 1).toNat + n ≤ mem.size
  omega

/-- A cell an inside access covers is below the size, also where the address wraps. -/
theorem Memory.Inside.covered_lt {mem : Memory} {address : BitVec 32} {n i : Nat}
    (h : mem.Inside address n) (hi : i ∈ covered address n) : i < mem.size := by
  obtain ⟨k, hk, rfl⟩ := mem_covered.mp hi
  -- a wrapped index is smaller than the exact one
  have hle : (address + BitVec.ofNat 32 k).toNat ≤ address.toNat + k := by
    rw [BitVec.toNat_add, BitVec.toNat_ofNat]
    exact (Nat.mod_le _ _).trans (Nat.add_le_add_left (Nat.mod_le _ _) _)
  have hsize : address.toNat + n ≤ mem.size := h
  omega

/-- Where the address does not wrap, the cells are an interval. -/
theorem covered_interval {address : BitVec 32} {n i : Nat} (h : address.toNat + n ≤ 2 ^ 32)
    (hi : i ∈ covered address n) : address.toNat ≤ i ∧ i < address.toNat + n := by
  obtain ⟨k, hk, rfl⟩ := mem_covered.mp hi
  rw [BitVec.toNat_add, BitVec.toNat_ofNat]
  omega

/-! ## The accessors by width -/

inductive Width
  | byte
  | half
  | word
deriving DecidableEq

def Width.bytes : Width → Nat
  | byte => 1
  | half => 2
  | word => 4

def Width.bits : Width → Nat
  | byte => 8
  | half => 16
  | word => 32

def memoryRead : (width : Width) → Memory → BitVec 32 → BitVec width.bits →
    Int × BitVec width.bits
  | .byte => memoryReadByte
  | .half => memoryReadHalf
  | .word => memoryReadWord

def memoryWrite : (width : Width) → Memory → BitVec 32 → BitVec width.bits → Int × Memory
  | .byte => memoryWriteByte
  | .half => memoryWriteHalf
  | .word => memoryWriteWord

/-! ## Reads join bytes -/

theorem toNat_or_of_lt {w i : Nat} {x y : BitVec w} (hx : 2 ^ i ∣ x.toNat)
    (hy : y.toNat < 2 ^ i) : (x ||| y).toNat = x.toNat + y.toNat := by
  obtain ⟨q, hq⟩ := hx
  rw [BitVec.toNat_or, hq, Nat.two_pow_add_eq_or_of_lt hy]

/-- A byte moved up by `i` bits, in a word that has room for it. -/
theorem toNat_byte_shiftLeft {w : Nat} (b : BitVec 8) (i : Nat) (h : i + 8 ≤ w) :
    (b.setWidth w <<< i).toNat = 2 ^ i * b.toNat := by
  have hb : b.toNat < 2 ^ 8 := b.isLt
  have hbw : b.toNat < 2 ^ w := lt_of_lt_of_le hb (Nat.pow_le_pow_right (by decide) (by omega))
  have hlt : b.toNat * 2 ^ i < 2 ^ w := calc
    b.toNat * 2 ^ i < 2 ^ 8 * 2 ^ i := Nat.mul_lt_mul_of_pos_right hb (Nat.two_pow_pos i)
    _ = 2 ^ (i + 8) := by rw [← pow_add, Nat.add_comm]
    _ ≤ 2 ^ w := Nat.pow_le_pow_right (by decide) h
  rw [BitVec.toNat_shiftLeft, BitVec.toNat_setWidth, Nat.mod_eq_of_lt hbw, Nat.shiftLeft_eq,
    Nat.mod_eq_of_lt hlt, Nat.mul_comm]

theorem toNat_halfOf (lo hi : BitVec 8) :
    (hi.setWidth 16 <<< 8 ||| lo.setWidth 16).toNat = join [hi, lo] := by
  have hhi := toNat_byte_shiftLeft (w := 16) hi 8 (by decide)
  have hlo : (lo.setWidth 16).toNat = lo.toNat := by
    rw [BitVec.toNat_setWidth]; have := lo.isLt; omega
  rw [toNat_or_of_lt (i := 8) ⟨_, hhi⟩ (by rw [hlo]; exact lo.isLt), hhi, hlo]
  simp [join]

theorem toNat_wordOf (a b c d : BitVec 8) :
    (d.setWidth 32 <<< 24 ||| c.setWidth 32 <<< 16 ||| b.setWidth 32 <<< 8 |||
      a.setWidth 32).toNat = join [d, c, b, a] := by
  have hd := toNat_byte_shiftLeft (w := 32) d 24 (by decide)
  have hc := toNat_byte_shiftLeft (w := 32) c 16 (by decide)
  have hb := toNat_byte_shiftLeft (w := 32) b 8 (by decide)
  have ha : (a.setWidth 32).toNat = a.toNat := by
    rw [BitVec.toNat_setWidth]; have := a.isLt; omega
  have hclt : c.toNat < 256 := c.isLt
  have hblt : b.toNat < 256 := b.isLt
  have halt : a.toNat < 256 := a.isLt
  -- from the top byte down, the sum so far is a multiple of the bound of the next byte
  have hdc : (d.setWidth 32 <<< 24 ||| c.setWidth 32 <<< 16).toNat
      = 2 ^ 16 * (256 * d.toNat + c.toNat) := by
    rw [toNat_or_of_lt (i := 24) ⟨_, hd⟩ (by rw [hc]; omega), hd, hc]; ring
  have hdcb : (d.setWidth 32 <<< 24 ||| c.setWidth 32 <<< 16 ||| b.setWidth 32 <<< 8).toNat
      = 2 ^ 8 * (256 * (256 * d.toNat + c.toNat) + b.toNat) := by
    rw [toNat_or_of_lt (i := 16) ⟨_, hdc⟩ (by rw [hb]; omega), hdc, hb]; ring
  rw [toNat_or_of_lt (i := 8) ⟨_, hdcb⟩ (by rw [ha]; omega), hdcb, ha]
  simp [join]

/-- The bytes of the cells an access covers, read with the test `memory.c` makes: little
endian when the flag is 0. -/
def Memory.joined (mem : Memory) (address : BitVec 32) (n : Nat) : Nat :=
  join (inOrder (mem.isBigEndian ≠ 0) ((covered address n).map mem.address))

theorem memoryReadByte_value {mem : Memory} {address : BitVec 32}
    (h : address.toNat ≤ mem.size) (value : BitVec 8) :
    (memoryReadByte mem address value).2.toNat = mem.joined address 1 := by
  rw [memoryReadByte, if_pos h, Memory.joined, covered_one, inOrder]
  split <;> simp [join, Memory.get]

theorem memoryReadHalf_value {mem : Memory} {address : BitVec 32}
    (h : address.toNat ≤ mem.size) (value : BitVec 16) :
    (memoryReadHalf mem address value).2.toNat = mem.joined address 2 := by
  rw [memoryReadHalf, if_pos h, Memory.joined, covered_two]
  by_cases hbe : mem.isBigEndian = 0
  · rw [if_pos hbe, inOrder, if_neg (by simpa using hbe)]
    dsimp only
    rw [BitVec.or_comm, toNat_halfOf]
    rfl
  · rw [if_neg hbe, inOrder, if_pos (by simpa using hbe)]
    dsimp only
    rw [toNat_halfOf]
    rfl

theorem memoryReadWord_value {mem : Memory} {address : BitVec 32}
    (h : address.toNat ≤ mem.size) (value : BitVec 32) :
    (memoryReadWord mem address value).2.toNat = mem.joined address 4 := by
  rw [memoryReadWord, if_pos h, Memory.joined, covered_four]
  by_cases hbe : mem.isBigEndian = 0
  · rw [if_pos hbe, inOrder, if_neg (by simpa using hbe)]
    have horder (a b c d : BitVec 32) : a ||| b ||| c ||| d = d ||| c ||| b ||| a := by
      rw [BitVec.or_comm (a ||| b ||| c), BitVec.or_comm (a ||| b), BitVec.or_comm a,
        ← BitVec.or_assoc, ← BitVec.or_assoc]
    dsimp only
    rw [horder, toNat_wordOf]
    rfl
  · rw [if_neg hbe, inOrder, if_pos (by simpa using hbe)]
    dsimp only
    rw [toNat_wordOf]
    rfl

/-- A read whose guard passes stores the join of the covered bytes. -/
theorem memoryRead_value (width : Width) {mem : Memory} {address : BitVec 32}
    (h : address.toNat ≤ mem.size) (value : BitVec width.bits) :
    (memoryRead width mem address value).2.toNat = mem.joined address width.bytes := by
  cases width with
  | byte => exact memoryReadByte_value h value
  | half => exact memoryReadHalf_value h value
  | word => exact memoryReadWord_value h value

/-- A read whose guard fails reports it and stores nothing. -/
theorem memoryRead_refused (width : Width) {mem : Memory} {address : BitVec 32}
    (h : ¬ address.toNat ≤ mem.size) (value : BitVec width.bits) :
    memoryRead width mem address value = (-1, value) := by
  cases width with
  | byte => exact if_neg h
  | half => exact if_neg h
  | word => exact if_neg h

/-! ## Writes update bytes -/

/-- The byte updates that store the `n` bytes of `v`: big endian when the flag is 1. -/
def byteUpdates (isBigEndian : Int) (address : BitVec 32) (n v : Nat) : List (Nat × BitVec 8) :=
  (covered address n).zip (inOrder (isBigEndian = 1) (split n v))

theorem split_one (v : Nat) : split 1 v = [BitVec.ofNat 8 v] := by
  simp [split]

theorem split_two (v : Nat) : split 2 v = [BitVec.ofNat 8 (v / 2 ^ 8), BitVec.ofNat 8 v] := by
  simp [split, List.range_succ]

theorem split_four (v : Nat) :
    split 4 v = [BitVec.ofNat 8 (v / 2 ^ 24), BitVec.ofNat 8 (v / 2 ^ 16),
      BitVec.ofNat 8 (v / 2 ^ 8), BitVec.ofNat 8 v] := by
  simp [split, List.range_succ]

theorem lowByte_eq {w : Nat} (v : BitVec w) : v.setWidth 8 = BitVec.ofNat 8 v.toNat := by
  apply BitVec.eq_of_toNat_eq
  rw [BitVec.toNat_setWidth, BitVec.toNat_ofNat]

theorem shiftedByte_eq {w : Nat} (v : BitVec w) (i : Nat) :
    (v >>> i).setWidth 8 = BitVec.ofNat 8 (v.toNat / 2 ^ i) := by
  rw [lowByte_eq, BitVec.toNat_ushiftRight, Nat.shiftRight_eq_div_pow]

theorem memoryWriteByte_address (mem : Memory) (address : BitVec 32) (value : BitVec 8) :
    (memoryWriteByte mem address value).2.address
      = applyUpdates (byteUpdates mem.isBigEndian address 1 value.toNat) mem.address := by
  rw [byteUpdates, covered_one, split_one, ← lowByte_eq, BitVec.setWidth_eq, inOrder]
  split <;> rfl

theorem memoryWriteHalf_address (mem : Memory) (address : BitVec 32) (value : BitVec 16) :
    (memoryWriteHalf mem address value).2.address
      = applyUpdates (byteUpdates mem.isBigEndian address 2 value.toNat) mem.address := by
  rw [byteUpdates, covered_two, split_two, ← lowByte_eq, ← shiftedByte_eq, memoryWriteHalf,
    inOrder_decide]
  split
  · rfl
  · rfl

theorem memoryWriteWord_address (mem : Memory) (address : BitVec 32) (value : BitVec 32) :
    (memoryWriteWord mem address value).2.address
      = applyUpdates (byteUpdates mem.isBigEndian address 4 value.toNat) mem.address := by
  rw [byteUpdates, covered_four, split_four, ← lowByte_eq, ← shiftedByte_eq, ← shiftedByte_eq,
    ← shiftedByte_eq, memoryWriteWord, inOrder_decide]
  split
  · rfl
  · rfl

/-- A write is the list of its byte updates. -/
theorem memoryWrite_address (width : Width) (mem : Memory) (address : BitVec 32)
    (value : BitVec width.bits) :
    (memoryWrite width mem address value).2.address
      = applyUpdates (byteUpdates mem.isBigEndian address width.bytes value.toNat)
          mem.address := by
  cases width with
  | byte => exact memoryWriteByte_address mem address value
  | half => exact memoryWriteHalf_address mem address value
  | word => exact memoryWriteWord_address mem address value

@[simp] theorem memoryWrite_size (width : Width) (mem : Memory) (address : BitVec 32)
    (value : BitVec width.bits) : (memoryWrite width mem address value).2.size = mem.size := by
  cases width with
  | byte => rfl
  | half => simp only [memoryWrite, memoryWriteHalf]; split <;> rfl
  | word => simp only [memoryWrite, memoryWriteWord]; split <;> rfl

@[simp] theorem memoryWrite_isBigEndian (width : Width) (mem : Memory) (address : BitVec 32)
    (value : BitVec width.bits) :
    (memoryWrite width mem address value).2.isBigEndian = mem.isBigEndian := by
  cases width with
  | byte => rfl
  | half => simp only [memoryWrite, memoryWriteHalf]; split <;> rfl
  | word => simp only [memoryWrite, memoryWriteWord]; split <;> rfl

/-- No write reports a failure. -/
theorem memoryWrite_status (width : Width) (mem : Memory) (address : BitVec 32)
    (value : BitVec width.bits) : (memoryWrite width mem address value).1 = 0 := by
  cases width with
  | byte => rfl
  | half => simp only [memoryWrite, memoryWriteHalf]; split <;> rfl
  | word => simp only [memoryWrite, memoryWriteWord]; split <;> rfl

/-- The cells a write covers hold the bytes of the value. -/
theorem memoryWrite_covered (width : Width) (mem : Memory) (address : BitVec 32)
    (value : BitVec width.bits) :
    (covered address width.bytes).map (memoryWrite width mem address value).2.address
      = inOrder (mem.isBigEndian = 1) (split width.bytes value.toNat) := by
  have hbytes : width.bytes ≤ 2 ^ 32 := by cases width <;> decide
  rw [memoryWrite_address]
  refine applyUpdates_zip (covered_nodup address hbytes) ?_ _
  rw [covered_length, inOrder_length, split_length]

/-- A write changes nothing exactly when the cells it covers hold its bytes already. -/
theorem memoryWrite_eq_self (width : Width) (mem : Memory) (address : BitVec 32)
    (value : BitVec width.bits) :
    (memoryWrite width mem address value).2 = mem ↔
      (covered address width.bytes).map mem.address
        = inOrder (mem.isBigEndian = 1) (split width.bytes value.toNat) := by
  constructor
  · intro hsame
    have hbytes := memoryWrite_covered width mem address value
    rwa [hsame] at hbytes
  · intro hbytes
    have hcells := memoryWrite_address width mem address value
    rw [byteUpdates, ← hbytes, applyUpdates_zip_self] at hcells
    have horder := memoryWrite_isBigEndian width mem address value
    have hsize := memoryWrite_size width mem address value
    cases hmem : (memoryWrite width mem address value).2
    rw [hmem] at hcells horder hsize
    cases mem
    cases hcells
    cases horder
    cases hsize
    rfl

theorem memoryWriteByte_eq_self (mem : Memory) (address : BitVec 32) (value : BitVec 8) :
    (memoryWriteByte mem address value).2 = mem ↔ mem.address address.toNat = value := by
  have hcells : (memoryWriteByte mem address value).2 = mem ↔
      (covered address 1).map mem.address
        = inOrder (mem.isBigEndian = 1) (split 1 value.toNat) :=
    memoryWrite_eq_self .byte mem address value
  rw [hcells, covered_one, split_one, ← lowByte_eq, BitVec.setWidth_eq, inOrder]
  split <;> simp

/-- What is written is read back, in either byte order. -/
theorem memoryWrite_joined (width : Width) {mem : Memory}
    (horder : mem.isBigEndian = 0 ∨ mem.isBigEndian = 1) (address : BitVec 32)
    (value : BitVec width.bits) :
    (memoryWrite width mem address value).2.joined address width.bytes = value.toNat := by
  have hflag : decide (mem.isBigEndian ≠ 0) = decide (mem.isBigEndian = 1) := by
    rcases horder with horder | horder <;> rw [horder] <;> rfl
  have hbits : 256 ^ width.bytes = 2 ^ width.bits := by cases width <;> rfl
  rw [Memory.joined, memoryWrite_isBigEndian, memoryWrite_covered, hflag, inOrder_inOrder,
    join_split, hbits, Nat.mod_eq_of_lt value.isLt]

/-- Frame: a write leaves the cells it does not cover. -/
theorem memoryWrite_frame (width : Width) (mem : Memory) (address : BitVec 32)
    (value : BitVec width.bits) {i : Nat} (hi : i ∉ covered address width.bytes) :
    (memoryWrite width mem address value).2.address i = mem.address i := by
  rw [memoryWrite_address]
  refine applyUpdates_of_forall_ne (fun u hu hui => hi ?_) _
  rw [← hui]
  exact (List.of_mem_zip hu).1

end Armator
