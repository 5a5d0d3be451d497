import Armator.Instr.Step
import Armator.Lib.CString
import Armator.Lib.Failing

set_option autoImplicit false

/-! # The state of the gdb stub and its replies (`gdb_protocol.c`)

The handlers are programs over `Gdb`. They build a reply in `gdb->packet`, behind its first
character, and `gdb_send_buffer` frames it in place. The events are the calls of `Rio_writen`
and `shutdown`, the stores into `gdb->packet`, the places where a handler begins to read the
request, the uses of values that are not there, and the events of the processor.
-/

namespace Armator

open Logged CString

/-- How the simulator was built and where it runs. -/
structure GdbConfig where
  host : Host
  /-- `is_big_endian()` -/
  hostBigEndian : Bool
  /-- `BIG_ENDIAN_SIMULATOR` is defined -/
  targetBigEndian : Bool

/-- `struct gdb_protocol_data`. The memory of the stub is the one of `arm`; `packet` may grow
beyond `MAX_PACKET_SIZE`, as if the other fields were stored elsewhere. -/
structure Gdb where
  arm : ArmCore
  targetException : Int
  packet : List Byte
  len : Nat
  /-- `gdb->buffer - gdb->packet` -/
  buffer : Nat
  /-- `gdb_init_data` sets `buffer` and nothing else does. -/
  buffer_eq : buffer = 1

def MAX_PACKET_SIZE : Nat := 1024

def Gdb.mem (g : Gdb) : Memory := g.arm.mem

inductive GdbEvent
  | arm (e : Event)
  | traceDisable
  | traceEnable
  /-- `Rio_writen(gdb->fd, bytes, ..)` -/
  | send (bytes : List Byte)
  /-- `shutdown(gdb->fd, SHUT_WR)` -/
  | shutdown
  /-- a store of `count` characters at `gdb->packet + offset` -/
  | store (offset count : Nat)
  /-- a read of the request at `data + offset`, of one character or up to the next NUL -/
  | load (offset : Nat)
  /-- a variable is used that `sscanf` did not assign -/
  | unassigned
  /-- the result of `index` is used although the character is not there -/
  | absent
  /-- a store into the error buffer of the scanner -/
  | errorStore (offset : Nat)
deriving DecidableEq

/-- What stops the program. -/
inductive Fault
  /-- a pointer is followed that points to nothing -/
  | invalidPointer
  /-- an `assert` fails -/
  | assertion
  /-- the loop of `cont` ran longer than its fuel -/
  | outOfFuel
deriving DecidableEq

abbrev GdbM (α : Type) : Type := FailM Fault Gdb GdbEvent α

/-- The indeterminate values one call of `gdb_packet_analysis` meets, and the fuel of the loop
of `cont`. -/
structure GdbLocals where
  fuel : Nat
  /-- the locals of the calls of `arm_step`, in order -/
  steps : Nat → Locals
  /-- `instruction` of `cont` -/
  instruction : BitVec 32
  /-- `given` of `gdb_packet_analysis` -/
  given : BitVec 32
  /-- `address` and `size` of `read_memory` and `write_memory_binary` -/
  address : BitVec 32
  size : BitVec 32
  /-- `value` of `read_memory` -/
  byte : BitVec 8
  /-- `reg` of `write_register` -/
  reg : BitVec 32
  /-- `value` of the call of `read_uint32` at a position of the request -/
  value : Nat → BitVec 32

/-! ## Primitive steps -/

def liftArm {α : Type} (m : ArmM α) : GdbM α :=
  total (zoom Gdb.arm (fun c g => { g with arm := c }) GdbEvent.arm m)

def gdbEmit (e : GdbEvent) : GdbM Unit := total (emit e)

def getGdb : GdbM Gdb := total getState

def modifyGdb (f : Gdb → Gdb) : GdbM Unit := total (modifyState f)

/-- `gdb->packet[o] = b` -/
def storeChar (o : Nat) (b : Byte) : GdbM Unit := do
  gdbEmit (.store o 1)
  modifyGdb fun g => { g with packet := overwrite g.packet o [b] }

/-- `sprintf(gdb->packet + o, ..)` or `strcpy` of the text `t`. -/
def storeText (o : Nat) (t : List Byte) : GdbM Unit := do
  gdbEmit (.store o (t.length + 1))
  modifyGdb fun g => { g with packet := overwrite g.packet o (t ++ [0]) }

/-- The string at `data + o`, for a function that reads it up to its NUL. -/
def loadString (data : List Byte) (o : Nat) : GdbM (List Byte) := do
  gdbEmit (.load o)
  return cstring (data.drop o)

/-- `data[o]` -/
def loadChar (data : List Byte) (o : Nat) : GdbM Byte := do
  gdbEmit (.load o)
  return data.getD o 0

/-! ## Replies -/

def gdbSendAck : GdbM Unit := gdbEmit (.send [chr '+'])

def gdbRequireRetransmission : GdbM Unit := gdbEmit (.send [chr '-'])

def gdbTransmitPacket : GdbM Unit := do
  let g ← getGdb
  gdbEmit (.send (g.packet.take g.len))

/-- `check += c` for each character, in an `unsigned char`. -/
def checksum (bytes : List Byte) : Byte := bytes.foldl (· + ·) 0

def gdbSendBuffer : GdbM Unit := do
  storeChar 0 (chr '$')
  let g ← getGdb
  -- the characters from packet[1] on that the loop adds up
  let payload := cstring (g.packet.drop 1)
  let i := 1 + payload.length
  let check := checksum payload
  storeChar i (chr '#')
  storeText (i + 1) (hex2 check)
  let i := i + 3
  storeChar i 0
  modifyGdb fun g => { g with len := i }
  gdbTransmitPacket

def gdbSendData (data : List Byte) : GdbM Unit := do
  let g ← getGdb
  storeText g.buffer data
  gdbSendBuffer

def gdbSendStopReason : GdbM Unit := do
  let g ← getGdb
  if g.targetException = UNDEFINED_INSTRUCTION then
    gdbSendData (text ['S', '0', '4'])
  else if g.targetException = PREFETCH_ABORT ∨ g.targetException = DATA_ABORT then
    gdbSendData (text ['S', '1', '0'])
  else
    gdbSendData (text ['S', '0', '5'])

/-- `storage` is what `malloc` left in `gdb->packet`. -/
def gdbInitData (arm : ArmCore) (storage : List Byte) : Gdb where
  arm := arm
  targetException := 0
  packet := storage
  len := 0
  buffer := 1
  buffer_eq := rfl

end Armator
