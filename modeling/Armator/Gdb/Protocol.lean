import Armator.Gdb.Handlers

set_option autoImplicit false

/-! # Checking and dispatching a packet (`gdb_init`, `gdb_packet_analysis`)

`packet` is the block of characters at the text the scanner matched, the NUL behind the text
and whatever follows it included; `length` is the length of the text.
-/

namespace Armator

open Logged CString

/-- The handlers that `gdb_init` installs. -/
inductive Command
  | cont
  | killRequest
  | query
  | readGeneralRegisters
  | readMemory
  | readRegister
  | reason
  | setThread
  | step
  | writeGeneralRegisters
  | writeMemoryBinary
  | writeRegister
deriving DecidableEq

/-- The table `handler`, without its null entries. -/
def handlers : List (Byte × Command) :=
  [(chr 'c', .cont), (chr 'k', .killRequest), (chr 'q', .query),
   (chr 'g', .readGeneralRegisters), (chr 'm', .readMemory), (chr 'p', .readRegister),
   (chr '?', .reason), (chr 'H', .setThread), (chr 's', .step),
   (chr 'G', .writeGeneralRegisters), (chr 'X', .writeMemoryBinary), (chr 'P', .writeRegister)]

def handler (index : Byte) : Option Command := handlers.lookup index

def Command.run (cfg : GdbConfig) (u : GdbLocals) (data : List Byte) : Command → GdbM Unit
  | .cont => Armator.cont cfg u
  | .killRequest => Armator.killRequest
  | .query => Armator.query data
  | .readGeneralRegisters => Armator.readGeneralRegisters cfg
  | .readMemory => Armator.readMemory u data
  | .readRegister => readRegisterHandler cfg data
  | .reason => Armator.reason
  | .setThread => Armator.setThread data
  | .step => Armator.step cfg u
  | .writeGeneralRegisters => Armator.writeGeneralRegisters cfg u data
  | .writeMemoryBinary => Armator.writeMemoryBinary u data
  | .writeRegister => writeRegisterHandler cfg u data

/-- The call of the handler for the character `index`, if there is one. -/
def dispatch (cfg : GdbConfig) (u : GdbLocals) (index : Byte) (data : List Byte) : GdbM Unit :=
  match handler index with
  | some command => command.run cfg u data
  | none => gdbSendData []

def gdbPacketAnalysis (cfg : GdbConfig) (u : GdbLocals) (packet : List Byte) (length : Nat) :
    GdbM Unit := do
  -- `i` when `for (i=1; i<length-3; i++)` ends
  let i := max 1 (length - 3)
  let check := checksum ((packet.take i).drop 1)
  let given := match scanNumber (cstring (packet.drop (i + 1))) with
    | some (v, _) => v
    | none => u.given
  if check.setWidth 32 = given then do
    gdbSendAck
    let packet := packet.set i 0
    let index := packet.getD 1 0
    dispatch cfg u index (packet.drop 2)
  else
    gdbRequireRetransmission

end Armator
