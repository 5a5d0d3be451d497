import Armator.Arch.Condition
import Armator.Arch.Operand

set_option autoImplicit false

/-! # Data processing of the architecture

Results and flags of the sixteen opcodes. An arithmetic opcode is given by its exact value
over the integers: the result is that value modulo `2^32`, and the carry and overflow flags
say whether the value fits, with the operands read as unsigned and as signed numbers.
-/

namespace Armator.Arch

theorem ofInt_toNat (x : BitVec 32) : BitVec.ofInt 32 x.toNat = x := by
  rw [BitVec.ofInt_natCast, BitVec.ofNat_toNat, BitVec.setWidth_eq]

theorem ofInt_sub (x y : Int) :
    BitVec.ofInt 32 (x - y) = BitVec.ofInt 32 x - BitVec.ofInt 32 y := by
  rw [Int.sub_eq_add_neg, BitVec.ofInt_add, BitVec.ofInt_neg, ← BitVec.sub_eq_add_neg]

inductive Opcode
  | AND | EOR | SUB | RSB | ADD | ADC | SBC | RSC | TST | TEQ | CMP | CMN | ORR | MOV | BIC | MVN
deriving DecidableEq

def Opcode.ofField : Nat → Opcode
  | 0 => AND
  | 1 => EOR
  | 2 => SUB
  | 3 => RSB
  | 4 => ADD
  | 5 => ADC
  | 6 => SBC
  | 7 => RSC
  | 8 => TST
  | 9 => TEQ
  | 10 => CMP
  | 11 => CMN
  | 12 => ORR
  | 13 => MOV
  | 14 => BIC
  | _ => MVN

/-- The exact value of an arithmetic opcode, and whether it is an addition. -/
def Opcode.exact (n m carry : Int) : Opcode → Option (Int × Bool)
  | ADD | CMN => some (n + m, true)
  | ADC => some (n + m + carry, true)
  | SUB | CMP => some (n - m, false)
  | SBC => some (n - m - (1 - carry), false)
  | RSB => some (m - n, false)
  | RSC => some (m - n - (1 - carry), false)
  | _ => none

/-- The result of a logical opcode. -/
def Opcode.logical (n m : BitVec 32) : Opcode → BitVec 32
  | AND | TST => n &&& m
  | EOR | TEQ => n ^^^ m
  | ORR => n ||| m
  | BIC => n &&& ~~~m
  | MVN => ~~~m
  | _ => m

variable (op : Opcode) (n m : BitVec 32) (old : Flags) (shifterCarry : Bool)

def Opcode.result : BitVec 32 :=
  match op.exact n.toNat m.toNat old.c.toNat with
  | some (value, _) => BitVec.ofInt 32 value
  | none => op.logical n m

/-- Carry for additions, NOT borrow for subtractions, the shifter's carry-out otherwise. -/
def Opcode.carryOut : Bool :=
  match op.exact n.toNat m.toNat old.c.toNat with
  | some (value, true) => 2 ^ 32 ≤ value
  | some (value, false) => 0 ≤ value
  | none => shifterCarry

/-- Signed overflow; the logical opcodes keep V. -/
def Opcode.overflow : Bool :=
  match op.exact n.toInt m.toInt old.c.toNat with
  | some (value, _) => ¬ (-2 ^ 31 ≤ value ∧ value < 2 ^ 31)
  | none => old.v

/-- The flags an instruction with S = 1 produces. -/
def Opcode.flags : Flags where
  n := (op.result n m old).getLsbD 31
  z := op.result n m old = 0
  c := op.carryOut n m old shifterCarry
  v := op.overflow n m old

end Armator.Arch
