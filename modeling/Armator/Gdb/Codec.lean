import Armator.Gdb.State
import Armator.Semantics.ByteMemory

set_option autoImplicit false

/-! # Words as hexadecimal text (`read_uint32`, `write_uint32`)

Both functions walk over the bytes of a union of `unsigned char bytes[4]` and
`uint32_t integer`, forwards or backwards, with an unsigned index.
-/

namespace Armator

open Logged CString

/-- The values of `i` in `for (; (i<4) && (i>=0); i+=step)`, with `unsigned` `i` and `step`;
`none` if the loop does not end within the fuel. -/
def loopIndices (step : BitVec 32) : Nat → BitVec 32 → Option (List Nat)
  | 0, _ => none
  | fuel + 1, i =>
    if i < 4 ∧ 0 ≤ i then (loopIndices step fuel (i + step)).map (i.toNat :: ·) else some []

def unionIndices (cfg : GdbConfig) : Option (List Nat) :=
  if cfg.hostBigEndian = cfg.targetBigEndian then loopIndices 1 5 0 else loopIndices (-1) 5 3

/-- `mem.bytes` after `mem.integer = v` -/
def bytesOfInteger (cfg : GdbConfig) (v : BitVec 32) (i : Nat) : BitVec 8 :=
  (inOrder cfg.hostBigEndian (split 4 v.toNat)).getD i 0

/-- `mem.integer` -/
def integerOfBytes (cfg : GdbConfig) (bytes : Nat → BitVec 8) : BitVec 32 :=
  BitVec.ofNat 32 (join (inOrder cfg.hostBigEndian [bytes 0, bytes 1, bytes 2, bytes 3]))

/-- The loop of `write_uint32`, and the NUL behind it. -/
def writeBytes (bytes : Nat → BitVec 8) : List Nat → Nat → GdbM Unit
  | [], data => storeText data []
  | i :: is, data => do
    storeText data (hex2 (bytes i))
    writeBytes bytes is (data + 2)

/-- `data` is an offset into `gdb->packet`. -/
def writeUint32 (cfg : GdbConfig) (data : Nat) (value : BitVec 32) : GdbM Unit := do
  match unionIndices cfg with
  | none => throw .outOfFuel
  | some is => writeBytes (bytesOfInteger cfg value) is data

/-- `sscanf(data + o, "%02x", &value)`: the new content of `value`. -/
def scanByte (data : List Byte) (o : Nat) (value : BitVec 32) : GdbM (BitVec 32) := do
  match scanHex 2 (← loadString data o) with
  | some (v, _) => return v
  | none =>
    gdbEmit .unassigned
    return value

/-- The loop of `read_uint32`. -/
def readBytes (data : List Byte) :
    List Nat → Nat → BitVec 32 → (Nat → BitVec 8) → GdbM (Nat → BitVec 8)
  | [], _, _, bytes => return bytes
  | i :: is, o, value, bytes => do
    let value ← scanByte data o value
    readBytes data is (o + 2) value (Function.update bytes i (value.setWidth 8))

/-- Reads at `data + o`; `value` is the content of the local before the first `sscanf`. The
loop assigns all four bytes. -/
def readUint32 (cfg : GdbConfig) (value : Nat → BitVec 32) (data : List Byte) (o : Nat) :
    GdbM (BitVec 32) := do
  match unionIndices cfg with
  | none => throw .outOfFuel
  | some is =>
    let bytes ← readBytes data is o (value o) fun _ => 0
    return integerOfBytes cfg bytes

end Armator
