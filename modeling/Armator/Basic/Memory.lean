import Armator.Basic.Util
import Mathlib.Logic.Function.Basic

set_option autoImplicit false

/-! # The simulated memory (`memory.c`)

`Memory.address` is what the pointer `mem->address` reaches: the indices below `size` are the
allocated block, the bytes above are whatever the process holds next to it. The accessors
index it with `uint32_t` arithmetic, so `address + k` wraps at `2^32`. A read takes the old
value of its output variable and returns the `int` result together with the new value.
-/

namespace Armator

/-- `struct memory_data` -/
structure Memory where
  isBigEndian : Int
  address : Nat → BitVec 8
  size : Nat

/-- `mem->address[i]` -/
def Memory.get (mem : Memory) (i : BitVec 32) : BitVec 8 := mem.address i.toNat

/-- `mem->address[i] = v` -/
def Memory.set (mem : Memory) (i : BitVec 32) (v : BitVec 8) : Memory :=
  { mem with address := Function.update mem.address i.toNat v }

/-- `block` is the content of the allocated block, `none` when `malloc` fails. -/
def memoryCreate (block : Option (Nat → BitVec 8)) (size : Nat) (isBigEndian : Int) : Memory :=
  match block with
  | none => { isBigEndian := isBigEndian, address := fun _ => 0, size := 0 }
  | some bytes => { isBigEndian := isBigEndian, address := bytes, size := size }

def memoryGetSize (mem : Memory) : Nat := mem.size

def memoryReadByte (mem : Memory) (address : BitVec 32) (value : BitVec 8) : Int × BitVec 8 :=
  if address.toNat ≤ mem.size then
    let value := mem.get address
    (value.toNat, value)
  else
    (-1, value)

def memoryReadHalf (mem : Memory) (address : BitVec 32) (value : BitVec 16) : Int × BitVec 16 :=
  if address.toNat ≤ mem.size then
    if mem.isBigEndian = 0 then
      let a := (mem.get address).setWidth 16
      let b := (mem.get (address + 1)).setWidth 16 <<< 8
      let value := a ||| b
      (value.toNat, value)
    else
      let a := (mem.get address).setWidth 16 <<< 8
      let b := (mem.get (address + 1)).setWidth 16
      let value := a ||| b
      (value.toNat, value)
  else
    (-1, value)

/-- `return *value` converts the word to an `int`. -/
def memoryReadWord (mem : Memory) (address : BitVec 32) (value : BitVec 32) : Int × BitVec 32 :=
  if address.toNat ≤ mem.size then
    if mem.isBigEndian = 0 then
      let a := (mem.get address).setWidth 32
      let b := (mem.get (address + 1)).setWidth 32 <<< 8
      let c := (mem.get (address + 2)).setWidth 32 <<< 16
      let d := (mem.get (address + 3)).setWidth 32 <<< 24
      let value := a ||| b ||| c ||| d
      (value.toInt, value)
    else
      let a := (mem.get address).setWidth 32 <<< 24
      let b := (mem.get (address + 1)).setWidth 32 <<< 16
      let c := (mem.get (address + 2)).setWidth 32 <<< 8
      let d := (mem.get (address + 3)).setWidth 32
      let value := a ||| b ||| c ||| d
      (value.toInt, value)
  else
    (-1, value)

def memoryWriteByte (mem : Memory) (address : BitVec 32) (value : BitVec 8) : Int × Memory :=
  (0, mem.set address value)

def memoryWriteHalf (mem : Memory) (address : BitVec 32) (value : BitVec 16) : Int × Memory :=
  let a := value.setWidth 8
  let b := (value >>> 8).setWidth 8
  if mem.isBigEndian = 1 then
    let mem := (memoryWriteByte mem address b).2
    let mem := (memoryWriteByte mem (address + 1) a).2
    (0, mem)
  else
    let mem := (memoryWriteByte mem address a).2
    let mem := (memoryWriteByte mem (address + 1) b).2
    (0, mem)

def memoryWriteWord (mem : Memory) (address : BitVec 32) (value : BitVec 32) : Int × Memory :=
  let a := value.setWidth 8
  let b := (value >>> 8).setWidth 8
  let c := (value >>> 16).setWidth 8
  let d := (value >>> 24).setWidth 8
  if mem.isBigEndian = 1 then
    (0, (((mem.set address d).set (address + 1) c).set (address + 2) b).set (address + 3) a)
  else
    (0, (((mem.set address a).set (address + 1) b).set (address + 2) c).set (address + 3) d)

end Armator
