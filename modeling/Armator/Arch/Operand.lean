import Armator.Arch.Encoding
import Armator.Lib.BitShift

set_option autoImplicit false

/-! # Operands of the architecture

The shifts an instruction word can ask for, by an immediate amount or by a register, the
immediate operand of data processing and the addresses of loads and stores, over a valuation of
the registers.
-/

namespace Armator.Arch

inductive ShiftKind
  | LSL | LSR | ASR | ROR
deriving DecidableEq

def ShiftKind.ofField : Nat → ShiftKind
  | 0 => LSL
  | 1 => LSR
  | 2 => ASR
  | _ => ROR

/-- A shift by the five bit amount of the encoding: 0 stands for 32 in LSR and ASR, and for
RRX, which shifts the carry flag in, in ROR. -/
def immediateShift (kind : ShiftKind) (amount : Nat) (carry : Bool) (m : BitVec 32) : BitVec 32 :=
  match kind with
  | .LSL => m <<< amount
  | .LSR => if amount = 0 then 0 else m >>> amount
  | .ASR => m.sshiftRight (if amount = 0 then 32 else amount)
  | .ROR =>
    if amount = 0 then (BitVec.ofBool carry).setWidth 32 <<< 31 ||| m >>> 1
    else m.rotateRight amount

/-- The carry-out of such a shift: the last bit shifted out, the old carry flag where nothing is
shifted. -/
def shiftCarry (kind : ShiftKind) (amount : Nat) (carry : Bool) (m : BitVec 32) : Bool :=
  match kind with
  | .LSL => if amount = 0 then carry else m.getLsbD (32 - amount)
  | .LSR | .ASR => if amount = 0 then m.getLsbD 31 else m.getLsbD (amount - 1)
  | .ROR => if amount = 0 then m.getLsbD 0 else m.getLsbD (amount - 1)

/-- The shift by one bit of a word, with the bit shifted out behind it. -/
def shiftOnce : ShiftKind → BitVec 32 × Bool → BitVec 32 × Bool
  | .LSL => BitShift.once (· <<< 1) BitVec.msb
  | .LSR => BitShift.once (· >>> 1) (BitVec.getLsbD · 0)
  | .ASR => BitShift.once (BitVec.sshiftRight · 1) (BitVec.getLsbD · 0)
  | .ROR => BitShift.once (BitVec.rotateRight · 1) (BitVec.getLsbD · 0)

/-- The operand and the carry-out of a shift by a register: one bit at a time, `amount` times. -/
def registerShift (kind : ShiftKind) (amount : Nat) (carry : Bool) (m : BitVec 32) :
    BitVec 32 × Bool := (shiftOnce kind)^[amount] (m, carry)

def shiftKind (w : BitVec 32) : ShiftKind := .ofField (field w 6 5)
def shiftAmount (w : BitVec 32) : Nat := field w 11 7

theorem shiftAmount_lt (w : BitVec 32) : shiftAmount w < 32 := field_lt w 11 7

/-- The eight bit immediate, rotated right by twice the four bit amount. -/
def immediateOperand (w : BitVec 32) : BitVec 32 :=
  (BitVec.ofNat 32 (field w 7 0)).rotateRight (2 * field w 11 8)

/-- The offset of a load or store: the twelve bit immediate, or a scaled register. -/
def offset (w : BitVec 32) (value : Nat → BitVec 32) (carry : Bool) : BitVec 32 :=
  if w.getLsbD 25 then immediateShift (shiftKind w) (shiftAmount w) carry (value (rm w))
  else BitVec.ofNat 32 (field w 11 0)

/-- The base plus (U = 1) or minus (U = 0) the offset. -/
def displaced (w base offset : BitVec 32) : BitVec 32 :=
  if w.getLsbD 23 then base + offset else base - offset

/-- The address a load or store accesses: post-indexing (P = 0) uses the base itself. -/
def effectiveAddress (w : BitVec 32) (value : Nat → BitVec 32) (carry : Bool) : BitVec 32 :=
  if w.getLsbD 24 then displaced w (value (rn w)) (offset w value carry) else value (rn w)

end Armator.Arch
