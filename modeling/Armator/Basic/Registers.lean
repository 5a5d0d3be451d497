import Armator.Basic.Util
import Mathlib.Logic.Function.Basic

set_option autoImplicit false

/-! # The register file (`registers.c`)

`rData` is the array `r_data`: 18 words, `r0`..`r15`, the CPSR at index 16 and one SPSR at
index 17. There are no banked registers.
-/

namespace Armator

/-- `struct registers_data` -/
structure Registers where
  rData : Nat → BitVec 32

/-- `storage` is what `malloc` left in `r_data`. -/
def registersCreate (storage : Nat → BitVec 32) : Registers := ⟨storage⟩

/-- The mode bits of the CPSR. -/
def getMode (r : Registers) : BitVec 8 := (r.rData 16 &&& 0b11111).setWidth 8

def currentModeHasSpsr (r : Registers) : Bool :=
  let mode := getMode r
  if mode = USR ∨ mode = SYS then false else true

def inAPrivilegedMode (r : Registers) : Bool := getMode r ≠ USR

def readRegister (r : Registers) (reg : Nat) : BitVec 32 := r.rData reg

def readUsrRegister (r : Registers) (reg : Nat) : BitVec 32 :=
  if ¬ inAPrivilegedMode r then r.rData reg else 0

def readCpsr (r : Registers) : BitVec 32 := r.rData 16

def readSpsr (r : Registers) : BitVec 32 :=
  if currentModeHasSpsr r then r.rData 17 else 0

def writeRegister (r : Registers) (reg : Nat) (value : BitVec 32) : Registers :=
  { r with rData := Function.update r.rData reg value }

def writeUsrRegister (r : Registers) (reg : Nat) (value : BitVec 32) : Registers :=
  if ¬ inAPrivilegedMode r then writeRegister r reg value else r

def writeCpsr (r : Registers) (value : BitVec 32) : Registers := writeRegister r 16 value

def writeSpsr (r : Registers) (value : BitVec 32) : Registers :=
  if currentModeHasSpsr r then writeRegister r 17 value else r

end Armator
