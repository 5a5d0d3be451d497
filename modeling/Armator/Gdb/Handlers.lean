import Armator.Gdb.Codec

set_option autoImplicit false

/-! # The command handlers (`gdb_protocol.c`)

`data` is the block of characters from the argument of the command on. The texts that
`debug` and `trace_arm_state` print are left out.
-/

namespace Armator

open Logged CString

variable (cfg : GdbConfig) (u : GdbLocals) (data : List Byte)

/-! ## Execution -/

/-- The loop of `cont`; `k` counts the calls of `arm_step`. -/
def contLoop : Nat → Nat → BitVec 32 → GdbM Unit
  | 0, _, _ => throw .outOfFuel
  | fuel + 1, k, instruction => do
    gdbEmit .traceDisable
    let r15 := (← liftArm (armReadRegister 15)) - 4
    let instruction := (← liftArm (armReadWord r15 instruction)).2
    gdbEmit .traceEnable
    if instruction &&& 0xFFF000F0 = 0xE7F000F0 then
      return ()
    else
      let result ← liftArm (armStep cfg.host (u.steps k))
      modifyGdb fun g => { g with targetException := result }
      contLoop fuel (k + 1) instruction

def cont : GdbM Unit := do
  contLoop cfg u u.fuel 0 u.instruction
  gdbSendStopReason

/-- `shutdown` makes the connection refuse what is written later, and the scanner reach its end.
Neither is modelled here: the replies are what is handed to the connection. -/
def killRequest : GdbM Unit := gdbEmit .shutdown

def reason : GdbM Unit := gdbSendStopReason

def step : GdbM Unit := do
  let result ← liftArm (armStep cfg.host (u.steps 0))
  modifyGdb fun g => { g with targetException := result }
  gdbSendStopReason

/-! ## Queries -/

def query : GdbM Unit := do
  let s ← loadString data 0
  if s = text ['O', 'f', 'f', 's', 'e', 't', 's'] then
    gdbSendData (text ['T', 'e', 'x', 't', '=', '0', ';', 'D', 'a', 't', 'a', '=', '0', ';',
      'B', 's', 's', '=', '0'])
  else if s.take 9 = text ['S', 'u', 'p', 'p', 'o', 'r', 't', 'e', 'd'] then
    gdbSendData (text ['P', 'a', 'c', 'k', 'e', 't', 'S', 'i', 'z', 'e', '=', '4', '0', '0'])
  else if s = text ['T', 'S', 't', 'a', 't', 'u', 's'] then
    gdbSendData (text ['T', '0', ';', 't', 'n', 'o', 't', 'r', 'u', 'n', ':', '0'])
  else if s = text ['S', 'y', 'm', 'b', 'o', 'l', ':', ':'] then
    gdbSendData []
  else
    gdbSendData []

def setThread : GdbM Unit := do
  let type ← loadChar data 0
  let value := (atoi (← loadString data 1)).toInt
  if (type = chr 'c' ∨ type = chr 'g') ∧ value < 1 ∧ value > -2 then
    gdbSendData (text ['O', 'K'])
  else
    gdbSendData (text ['E', '0', '1'])

/-! ## Registers -/

def xxxxxxxx : List Byte := List.replicate 8 (chr 'x')

/-- `write_uint32` of the registers in `rs`, one behind the other. -/
def writeRegisters : List Nat → Nat → GdbM Unit
  | [], _ => return ()
  | i :: is, position => do
    writeUint32 cfg position (← liftArm (armReadRegister i))
    writeRegisters is (position + 8)

/-- `n` slots of registers that are not implemented. -/
def writeUnavailable : Nat → Nat → GdbM Unit
  | 0, _ => return ()
  | n + 1, position => do
    storeText position xxxxxxxx
    writeUnavailable n (position + 8)

def readGeneralRegisters : GdbM Unit := do
  gdbEmit .traceDisable
  let position := (← getGdb).buffer
  writeRegisters cfg (List.range 15) position
  let position := position + 8 * 15
  writeUint32 cfg position ((← liftArm (armReadRegister 15)) - 4)
  let position := position + 8
  -- three slots for each of f0..f7, and one for fps
  writeUnavailable (8 * 3 + 1) position
  let position := position + 8 * (8 * 3 + 1)
  writeUint32 cfg position (← liftArm armReadCpsr)
  gdbEmit .traceEnable
  gdbSendBuffer

/-- `read_uint32` into the registers in `rs`, one behind the other. -/
def readRegisters : List Nat → Nat → GdbM Unit
  | [], _ => return ()
  | i :: is, position => do
    let value ← readUint32 cfg u.value data position
    liftArm (armWriteRegister i value)
    readRegisters is (position + 8)

/-- `n` slots that are read and dropped. -/
def readUnavailable : Nat → Nat → GdbM Unit
  | 0, _ => return ()
  | n + 1, position => do
    let _value ← readUint32 cfg u.value data position
    readUnavailable n (position + 8)

def writeGeneralRegisters : GdbM Unit := do
  gdbEmit .traceDisable
  let position := 0
  readRegisters cfg u data (List.range 16) position
  let position := position + 8 * 16
  readUnavailable cfg u data (8 * 3 + 1) position
  let position := position + 8 * (8 * 3 + 1)
  liftArm (armWriteCpsr (← readUint32 cfg u.value data position))
  gdbEmit .traceEnable
  gdbSendData (text ['O', 'K'])

/-- The handler of `p`; `write_uint32` prints the pc without its bias. -/
def readRegisterHandler : GdbM Unit := do
  let reg := atoi (← loadString data 0)
  if reg < 16 then
    gdbEmit .traceDisable
    let g ← getGdb
    let value ← liftArm (armReadRegister reg.toNat)
    writeUint32 cfg g.buffer (value - if reg = 15 then 4 else 0)
    gdbEmit .traceEnable
    gdbSendBuffer
  else
    throw .assertion

/-- `sscanf(data,"%x", &reg)`: the content of `reg`, which is then used. -/
def scanRegister : GdbM (BitVec 32) := do
  match scanNumber (← loadString data 0) with
  | some (v, _) => return v
  | none =>
    gdbEmit .unassigned
    return u.reg

/-- `index(data, c) + 1`, which points to nothing when `c` is not there. -/
def pointAfter (c : Byte) : GdbM (Option Nat) := do
  match index data c with
  | some k => return some (k + 1)
  | none =>
    gdbEmit .absent
    return none

/-- The handler of `P`. -/
def writeRegisterHandler : GdbM Unit := do
  let reg ← scanRegister u data
  match ← pointAfter data (chr '=') with
  | none => throw .invalidPointer
  | some o =>
    let value ← readUint32 cfg u.value data o
    if reg < 16 then
      gdbEmit .traceDisable
      liftArm (armWriteRegister reg.toNat value)
      gdbEmit .traceEnable
      gdbSendData (text ['O', 'K'])
    else
      throw .assertion

/-! ## Memory -/

/-- `sscanf(data,"%x,%x", &address, &size)`: the contents of the two variables, which are then
used. -/
def scanRange : GdbM (BitVec 32 × BitVec 32) := do
  match scanPair (← loadString data 0) with
  | (some address, some size) => return (address, size)
  | (address, size) =>
    gdbEmit .unassigned
    return (address.getD u.address, size.getD u.size)

/-- The loop of `read_memory`; `n` is what is left of `size`. -/
def readMemoryLoop : Nat → BitVec 32 → BitVec 8 → Nat → GdbM Unit
  | 0, _, _, _ => return ()
  | n + 1, address, value, position => do
    let result := memoryReadByte (← getGdb).mem address value
    if result.1 ≠ -1 then
      storeText position (hex2 result.2)
      readMemoryLoop n (address + 1) result.2 (position + 2)

def readMemory : GdbM Unit := do
  let (address, size) ← scanRange u data
  let position := (← getGdb).buffer
  storeChar position 0
  readMemoryLoop size.toNat address u.byte position
  gdbSendBuffer

/-- The character that `content` points to. -/
def loadContent : Option Nat → GdbM Byte
  | none => throw .invalidPointer
  | some o => loadChar data o

/-- The value at `content`, and `content` behind it. -/
def unescape (content : Option Nat) : GdbM (Byte × Option Nat) := do
  let c ← loadContent data content
  if c = 0x7d then
    let content := content.map (· + 1)
    let c ← loadContent data content
    return (c ^^^ 0x20, content.map (· + 1))
  else
    return (c, content.map (· + 1))

/-- The loop of `write_memory_binary`; `n` is `size - i`. It returns `write_ok`. -/
def writeMemoryLoop : Nat → BitVec 32 → Option Nat → Bool → GdbM Bool
  | 0, _, _, writeOk => return writeOk
  | n + 1, address, content, writeOk => do
    if writeOk then
      let (value, content) ← unescape data content
      let result := memoryWriteByte (← getGdb).mem address value
      modifyGdb fun g => { g with arm := { g.arm with mem := result.2 } }
      writeMemoryLoop n (address + 1) content (result.1 = 0)
    else
      return writeOk

def writeMemoryBinary : GdbM Unit := do
  let (address, size) ← scanRange u data
  let content ← pointAfter data (chr ':')
  let writeOk := address.toNat < memoryGetSize (← getGdb).mem
  let writeOk ← writeMemoryLoop data size.toNat address content writeOk
  if writeOk then
    gdbSendData (text ['O', 'K'])
  else
    gdbSendData (text ['E', '0', '2'])

end Armator
