import Mathlib.Data.BitVec

set_option autoImplicit false

/-! # Instruction encodings of the architecture

The fields of an instruction word as numbers, and the class a word belongs to.
-/

namespace Armator.Arch

/-- The number in bits `hi..lo` of a word. -/
def field (w : BitVec 32) (hi lo : Nat) : Nat := w.toNat / 2 ^ lo % 2 ^ (hi - lo + 1)

theorem field_lt (w : BitVec 32) (hi lo : Nat) : field w hi lo < 2 ^ (hi - lo + 1) :=
  Nat.mod_lt _ (Nat.two_pow_pos _)

def condField (w : BitVec 32) : Nat := field w 31 28
def opcode (w : BitVec 32) : Nat := field w 24 21
def rn (w : BitVec 32) : Nat := field w 19 16
def rd (w : BitVec 32) : Nat := field w 15 12
def rm (w : BitVec 32) : Nat := field w 3 0
def rs (w : BitVec 32) : Nat := field w 11 8

/-- The condition field of an instruction that is always executed. -/
def AL : Nat := 14

inductive InstrClass
  | dataProcessing
  | miscellaneous
  | loadStore
  | loadStoreMultiple
  | branch
  | coprocessorLoadStore
  | coprocessorOther
  | softwareInterrupt
deriving DecidableEq

def classOf (w : BitVec 32) : InstrClass :=
  match field w 27 26 with
  | 0 => if field w 24 23 = 2 ∧ w.getLsbD 20 = false then .miscellaneous else .dataProcessing
  | 1 => .loadStore
  | 2 => if w.getLsbD 25 then .branch else .loadStoreMultiple
  | _ =>
    if ¬ w.getLsbD 25 then .coprocessorLoadStore
    else if w.getLsbD 24 then .softwareInterrupt
    else .coprocessorOther

/-- TST, TEQ, CMP and CMN: no result is written. -/
def IsComparison (w : BitVec 32) : Prop := field w 24 23 = 2

/-- The word names the destination of its result in Rd. -/
def WritesRd (w : BitVec 32) : Prop :=
  classOf w = .dataProcessing ∧ ¬ IsComparison w ∨ classOf w = .loadStore ∧ w.getLsbD 20 = true

def IsBranchLink (w : BitVec 32) : Prop := classOf w = .branch ∧ w.getLsbD 24 = true

def IsStoreWord (w : BitVec 32) : Prop :=
  classOf w = .loadStore ∧ w.getLsbD 20 = false ∧ w.getLsbD 22 = false

def IsStoreByte (w : BitVec 32) : Prop :=
  classOf w = .loadStore ∧ w.getLsbD 20 = false ∧ w.getLsbD 22 = true

/-- P = 0 or W = 1: the base register of a load or store moves. -/
def WritesBack (w : BitVec 32) : Prop := w.getLsbD 24 = false ∨ w.getLsbD 21 = true

instance (w : BitVec 32) : Decidable (WritesBack w) := inferInstanceAs (Decidable (_ ∨ _))
instance (w : BitVec 32) : Decidable (IsComparison w) := inferInstanceAs (Decidable (_ = _))
instance (w : BitVec 32) : Decidable (WritesRd w) := inferInstanceAs (Decidable (_ ∨ _))

/-- The number of bytes a load or store transfers. -/
def accessBytes (w : BitVec 32) : Nat := if w.getLsbD 22 then 1 else 4

theorem rd_lt (w : BitVec 32) : rd w < 16 := field_lt w 15 12

theorem opcode_div_four (w : BitVec 32) : opcode w / 4 = field w 24 23 := by
  simp only [opcode, field]
  omega

/-- The word with its condition field replaced by AL. -/
def withAL (w : BitVec 32) : BitVec 32 := w &&& 0x0FFFFFFF ||| 0xE0000000

/-- The displacement of a branch: its 24-bit field sign-extended, in words. -/
def branchOffset (w : BitVec 32) : BitVec 32 := (w.extractLsb' 0 24).signExtend 32 <<< 2

end Armator.Arch
