import Mathlib.Data.BitVec

set_option autoImplicit false

/-! # Condition flags and condition codes of the architecture -/

namespace Armator.Arch

/-- The flags N, Z, C and V. -/
structure Flags where
  n : Bool
  z : Bool
  c : Bool
  v : Bool
deriving DecidableEq

/-- The flags stored in bits 31..28 of a CPSR value. -/
def Flags.ofCpsr (cpsr : BitVec 32) : Flags :=
  ⟨cpsr.getLsbD 31, cpsr.getLsbD 30, cpsr.getLsbD 29, cpsr.getLsbD 28⟩

/-- The condition codes that test the flags. -/
inductive Condition
  | EQ | NE | CS | CC | MI | PL | VS | VC | HI | LS | GE | LT | GT | LE
deriving DecidableEq

/-- The condition of a condition field; 14 is AL and 15 is not a condition. -/
def Condition.ofField : Nat → Option Condition
  | 0 => some EQ
  | 1 => some NE
  | 2 => some CS
  | 3 => some CC
  | 4 => some MI
  | 5 => some PL
  | 6 => some VS
  | 7 => some VC
  | 8 => some HI
  | 9 => some LS
  | 10 => some GE
  | 11 => some LT
  | 12 => some GT
  | 13 => some LE
  | _ => none

def Condition.holds (f : Flags) : Condition → Bool
  | EQ => f.z
  | NE => !f.z
  | CS => f.c
  | CC => !f.c
  | MI => f.n
  | PL => !f.n
  | VS => f.v
  | VC => !f.v
  | HI => f.c && !f.z
  | LS => !f.c || f.z
  | GE => f.n == f.v
  | LT => f.n != f.v
  | GT => !f.z && f.n == f.v
  | LE => f.z || f.n != f.v

end Armator.Arch
