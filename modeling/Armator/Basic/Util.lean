import Mathlib.Data.BitVec

set_option autoImplicit false

/-! # Bit macros, shifts and constants (`util.h`, `util.c`, `arm_constants.h`)

A C `uint32_t` is a `BitVec 32`. The macros `get_bit`, `get_bits`, `set_bit`, `clr_bit` and
`set_bits` are translated as they expand, masks built from `~0` included. They are applied to
constant positions whose shift amounts are below 32, with one exception, `getBits63To32`.

Shifts by a *computed* amount go through `cShl` and `cShr`: C leaves a shift by 32 or more
(or by a negative amount) undefined, and the value the compiled program produces there is a
parameter, `Host`.
-/

namespace Armator

/-- What the compiled simulator computes for a shift whose amount is outside `0..31`. -/
structure Host where
  shl : BitVec 32 → Int → BitVec 32
  shr : BitVec 32 → Int → BitVec 32

/-- A host that takes the amount modulo 32, as the shift instructions of x86 do. -/
def Host.masked : Host where
  shl x n := x <<< (n % 32).toNat
  shr x n := x >>> (n % 32).toNat

/-- `x << n` on a 32-bit operand. -/
def cShl (h : Host) (x : BitVec 32) (n : Int) : BitVec 32 :=
  if 0 ≤ n ∧ n < 32 then x <<< n.toNat else h.shl x n

/-- `x >> n` on a `uint32_t`. -/
def cShr (h : Host) (x : BitVec 32) (n : Int) : BitVec 32 :=
  if 0 ≤ n ∧ n < 32 then x >>> n.toNat else h.shr x n

/-- `!x`: 1 when `x` is zero, 0 otherwise. -/
def cNot {w : Nat} (x : BitVec w) : BitVec 32 := if x = 0 then 1 else 0

/-! ## `util.h` -/

/-- `((x)>>(i))&1` -/
def getBit {w : Nat} (x : BitVec w) (i : Nat) : BitVec w := (x >>> i) &&& 1

/-- `get_bit` at a computed position. -/
def getBitAt (h : Host) (x : BitVec 32) (i : Int) : BitVec 32 := cShr h x i &&& 1

/-- `(x)|(1<<(i))` -/
def setBit (x : BitVec 32) (i : Nat) : BitVec 32 := x ||| ((1 : BitVec 32) <<< i)

/-- `(x)&~(1<<(i))` -/
def clrBit (x : BitVec 32) (i : Nat) : BitVec 32 := x &&& ~~~((1 : BitVec 32) <<< i)

/-- `((~0)>>(n))<<(n)`: the right shift is the arithmetic one, since `~0` is an `int`. -/
def onesFrom (n : Nat) : BitVec 32 := ((~~~(0 : BitVec 32)).sshiftRight n) <<< n

/-- `((x)>>(l))&~(((~0)>>((h)-(l)+1))<<((h)-(l)+1))` -/
def getBits (x : BitVec 32) (h l : Nat) : BitVec 32 := (x >>> l) &&& ~~~(onesFrom (h - l + 1))

/-- `get_bits(x, 63, 32)` on a `uint64_t`: both shifts of the `int` mask have amount 32. -/
def getBits63To32 (h : Host) (x : BitVec 64) : BitVec 64 :=
  (x >>> 32) &&& (~~~(cShl h (cShr h (~~~(0 : BitVec 32)) 32) 32)).signExtend 64

/-- `((x)&~(((~0)>>(l))<<(l)))|((x)&(((~0)>>((h)+1))<<((h)+1)))|((bits)<<(l))` -/
def setBits (x : BitVec 32) (h l : Nat) (bits : BitVec 32) : BitVec 32 :=
  (x &&& ~~~(onesFrom l)) ||| (x &&& onesFrom (h + 1)) ||| (bits <<< l)

/-! ## What the macros compute -/

theorem getBit_eq_ofBool (x : BitVec 32) (i : Nat) :
    getBit x i = (BitVec.ofBool (x.getLsbD i)).setWidth 32 := by
  simp [getBit, BitVec.and_one_eq_setWidth_ofBool_getLsbD]

theorem getBit_eq_one {x : BitVec 32} {i : Nat} : getBit x i = 1 ↔ x.getLsbD i = true := by
  rw [getBit_eq_ofBool]
  cases x.getLsbD i <;> decide

theorem getBit_eq_zero {x : BitVec 32} {i : Nat} : getBit x i = 0 ↔ x.getLsbD i = false := by
  rw [getBit_eq_ofBool]
  cases x.getLsbD i <;> decide

theorem getBit_ne_zero {x : BitVec 32} {i : Nat} : getBit x i ≠ 0 ↔ x.getLsbD i = true := by
  rw [ne_eq, getBit_eq_zero, Bool.not_eq_false]

theorem getBit_eq_of_getLsbD {x : BitVec 32} {i : Nat} {b : Bool} (h : x.getLsbD i = b) :
    getBit x i = if b then 1 else 0 := by
  cases b with
  | false => exact getBit_eq_zero.mpr h
  | true => exact getBit_eq_one.mpr h

theorem getBit_eq_getBit {x : BitVec 32} {i j : Nat} :
    getBit x i = getBit x j ↔ x.getLsbD i = x.getLsbD j := by
  rw [getBit_eq_ofBool, getBit_eq_ofBool]
  cases x.getLsbD i <;> cases x.getLsbD j <;> decide

theorem onesFrom_getLsbD (n i : Nat) :
    (onesFrom n).getLsbD i = (decide (i < 32) && decide (n ≤ i)) := by
  -- the arithmetic shift of `~0` is `~0` again
  have hones : (BitVec.allOnes 32).sshiftRight n = BitVec.allOnes 32 := by
    apply BitVec.eq_of_getLsbD_eq
    intro j hj
    rw [BitVec.getLsbD_sshiftRight, BitVec.msb_allOnes (by decide), BitVec.getLsbD_allOnes,
      BitVec.getLsbD_allOnes]
    by_cases hn : n + j < 32 <;> simp [hn, hj, Nat.not_le_of_lt hj]
  rw [onesFrom, show ~~~(0 : BitVec 32) = BitVec.allOnes 32 from rfl, hones,
    BitVec.getLsbD_shiftLeft, BitVec.getLsbD_allOnes]
  by_cases hi : i < 32
  · have hni : i - n < 32 := by omega
    by_cases hn : n ≤ i
    · simp [hi, hn, hni]
    · simp [hi, hn, Nat.lt_of_not_le hn]
  · simp [hi]

theorem getBits_getLsbD (x : BitVec 32) (h l i : Nat) :
    (getBits x h l).getLsbD i = (decide (i < h - l + 1) && x.getLsbD (l + i)) := by
  simp only [getBits, BitVec.getLsbD_and, BitVec.getLsbD_ushiftRight, BitVec.getLsbD_not,
    onesFrom_getLsbD]
  by_cases hi : i < 32
  · by_cases hn : i < h - l + 1
    · rw [decide_eq_true hi, decide_eq_true hn, decide_eq_false (Nat.not_le.mpr hn),
        Bool.and_false, Bool.not_false, Bool.and_true, Bool.and_true, Bool.true_and]
    · rw [decide_eq_true hi, decide_eq_false hn, decide_eq_true (Nat.not_lt.mp hn),
        Bool.and_true, Bool.not_true, Bool.and_false, Bool.and_false, Bool.false_and]
  · have hzero : x.getLsbD (l + i) = false := BitVec.getLsbD_of_ge _ _ (by omega)
    rw [hzero, Bool.false_and, Bool.and_false]

theorem getBits_eq_extract (x : BitVec 32) (h l : Nat) :
    getBits x h l = (x.extractLsb' l (h - l + 1)).setWidth 32 := by
  apply BitVec.eq_of_getLsbD_eq
  intro i hi
  rw [getBits_getLsbD]
  simp [BitVec.getLsbD_extractLsb', hi]

theorem getBits_toNat (x : BitVec 32) {h l : Nat} (hl : h - l < 32) :
    (getBits x h l).toNat = x.toNat / 2 ^ l % 2 ^ (h - l + 1) := by
  rw [getBits_eq_extract, BitVec.toNat_setWidth_of_le (by omega)]
  simp [BitVec.extractLsb'_toNat, Nat.shiftRight_eq_div_pow]

theorem setBits_getLsbD (x : BitVec 32) (h l : Nat) (bits : BitVec 32) {i : Nat} (hi : i < 32) :
    (setBits x h l bits).getLsbD i
      = ((x.getLsbD i && !decide (l ≤ i)) || (x.getLsbD i && decide (h + 1 ≤ i)) ||
          (!decide (i < l) && bits.getLsbD (i - l))) := by
  simp only [setBits, BitVec.getLsbD_or, BitVec.getLsbD_and, BitVec.getLsbD_not, onesFrom_getLsbD,
    BitVec.getLsbD_shiftLeft, decide_eq_true hi, Bool.true_and]

/-! ## `util.c` -/

/-- Arithmetic shift right; `shift` is a `uint8_t`. -/
def asr (h : Host) (value : BitVec 32) (shift : BitVec 8) : BitVec 32 :=
  cShr h value shift.toNat |||
    (if getBit value 31 ≠ 0 then cShl h (~~~0) (32 - shift.toNat) else 0)

/-- Rotation to the right; `rotation` is a `uint8_t`. -/
def ror (h : Host) (value : BitVec 32) (rotation : BitVec 8) : BitVec 32 :=
  cShr h value rotation.toNat ||| cShl h value (32 - rotation.toNat)

/-- For amounts from 1 to 31 `asr` is the arithmetic shift. -/
theorem asr_eq (h : Host) (v : BitVec 32) {s : BitVec 8} (h0 : 0 < s.toNat)
    (h32 : s.toNat < 32) : asr h v s = v.sshiftRight s.toNat := by
  have hshr : cShr h v s.toNat = v >>> s.toNat := if_pos (by omega)
  have hshl : cShl h (~~~0) (32 - s.toNat) = BitVec.allOnes 32 <<< (32 - s.toNat) := by
    rw [cShl, if_pos (by omega), show (32 - (s.toNat : Int)).toNat = 32 - s.toNat by omega]
    rfl
  rw [asr, hshr, hshl]
  apply BitVec.eq_of_getLsbD_eq
  intro i hi
  rw [BitVec.getLsbD_sshiftRight, BitVec.getLsbD_or, BitVec.getLsbD_ushiftRight]
  have hmsb : v.msb = v.getLsbD 31 := BitVec.msb_eq_getLsbD_last v
  have hbit : getBit v 31 = 0 ↔ v.getLsbD 31 = false := getBit_eq_zero
  -- below `32 - s` the bits come from `v`, above they copy its sign
  by_cases hlow : s.toNat + i < 32
  · have hhigh : ¬ 32 - s.toNat ≤ i := by omega
    split <;> simp [hlow, hhigh, hi, Nat.not_le.mpr hi]
  · have hzero : v.getLsbD (s.toNat + i) = false := BitVec.getLsbD_of_ge _ _ (by omega)
    have hhigh : i - (32 - s.toNat) < 32 := by omega
    rw [hzero, Bool.false_or, if_neg hlow, hmsb]
    cases h31 : v.getLsbD 31 with
    | false => rw [if_neg (not_not.mpr (hbit.mpr h31))]; simp [hi]
    | true =>
        rw [if_pos (fun hn => by rw [hbit.mp hn] at h31; cases h31), BitVec.getLsbD_shiftLeft,
          BitVec.getLsbD_allOnes]
        have hlow' : ¬ i < 32 - s.toNat := by omega
        simp [hi, hhigh, hlow', Nat.not_le.mpr hi]

/-- For amounts from 1 to 31 `ror` is the rotation. -/
theorem ror_eq (h : Host) (v : BitVec 32) {s : BitVec 8} (h0 : 0 < s.toNat)
    (h32 : s.toNat < 32) : ror h v s = v.rotateRight s.toNat := by
  have hshr : cShr h v s.toNat = v >>> s.toNat := if_pos (by omega)
  have hshl : cShl h v (32 - s.toNat) = v <<< (32 - s.toNat) := by
    rw [cShl, if_pos (by omega), show (32 - (s.toNat : Int)).toNat = 32 - s.toNat by omega]
  rw [ror, hshr, hshl, BitVec.rotateRight_def, Nat.mod_eq_of_lt h32]

/-! ## `arm_constants.h` -/

def USR : BitVec 8 := 0x10
def SYS : BitVec 8 := 0x1f

def RESET : Int := 1
def UNDEFINED_INSTRUCTION : Int := 2
def SOFTWARE_INTERRUPT : Int := 3
def PREFETCH_ABORT : Int := 4
def DATA_ABORT : Int := 5

/-- Positions of the condition flags in the CPSR. -/
def N : Nat := 31
def Z : Nat := 30
def C : Nat := 29
def V : Nat := 28

end Armator
