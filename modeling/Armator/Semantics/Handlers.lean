import Armator.Gdb.Protocol

set_option autoImplicit false

/-! # What holds of every handler

The handlers are made of a few kinds of steps. A property that goes through sequences holds of a
handler if it holds of these (`PlainProperty`, and `HandlerProperty` for the handlers that
access the processor).
-/

namespace Armator

open Logged CString

/-- The events of the stub itself: of its replies and its reading of requests. -/
def GdbEvent.plain : GdbEvent → Bool
  | .send _ | .shutdown | .store .. | .load _ | .unassigned | .absent => true
  | _ => false

/-- A property of programs that goes through sequences, and that the steps without the processor
have. -/
structure PlainProperty (P : {α : Type} → GdbM α → Prop) : Prop extends Compositional P where
  emit : ∀ e, e.plain = true → P (gdbEmit e)
  get : P getGdb
  modify : ∀ f, P (modifyGdb f)
  throw : ∀ {α : Type} (fault : Fault), P (throw fault : GdbM α)

/-- The same, and that accesses to the processor and the switching of the trace have. -/
structure HandlerProperty (P : {α : Type} → GdbM α → Prop) : Prop extends PlainProperty P where
  arm : ∀ {α : Type} (m : ArmM α), P (liftArm m)
  disable : P (gdbEmit .traceDisable)
  enable : P (gdbEmit .traceEnable)

/-! ## Replies and requests -/

namespace PlainProperty

variable {P : {α : Type} → GdbM α → Prop} (hP : PlainProperty P) (cfg : GdbConfig)
  (u : GdbLocals) (data : List Byte)

include hP

theorem storeChar (o : Nat) (b : Byte) : P (Armator.storeChar o b) :=
  hP.bind (hP.emit _ rfl) fun _ => hP.modify _

theorem storeText (o : Nat) (t : List Byte) : P (Armator.storeText o t) :=
  hP.bind (hP.emit _ rfl) fun _ => hP.modify _

theorem loadString (o : Nat) : P (Armator.loadString data o) :=
  hP.bind (hP.emit _ rfl) fun _ => hP.pure _

theorem loadChar (o : Nat) : P (Armator.loadChar data o) :=
  hP.bind (hP.emit _ rfl) fun _ => hP.pure _

theorem gdbTransmitPacket : P Armator.gdbTransmitPacket :=
  hP.bind hP.get fun _ => hP.emit _ rfl

theorem gdbSendBuffer : P Armator.gdbSendBuffer :=
  hP.bind (hP.storeChar 0 _) fun _ => hP.bind hP.get fun _ => hP.bind (hP.storeChar _ _) fun _ =>
    hP.bind (hP.storeText _ _) fun _ => hP.bind (hP.storeChar _ _) fun _ =>
      hP.bind (hP.modify _) fun _ => hP.gdbTransmitPacket

theorem gdbSendData (t : List Byte) : P (Armator.gdbSendData t) :=
  hP.bind hP.get fun _ => hP.bind (hP.storeText _ t) fun _ => hP.gdbSendBuffer

theorem gdbSendStopReason : P Armator.gdbSendStopReason :=
  hP.bind hP.get fun _ =>
    hP.ite (hP.gdbSendData _) (hP.ite (hP.gdbSendData _) (hP.gdbSendData _))

theorem writeBytes (bytes : Nat → BitVec 8) (is : List Nat) (o : Nat) :
    P (Armator.writeBytes bytes is o) := by
  induction is generalizing o with
  | nil => exact hP.storeText o []
  | cons i is ih => exact hP.bind (hP.storeText o _) fun _ => ih _

theorem writeUint32 (o : Nat) (value : BitVec 32) : P (Armator.writeUint32 cfg o value) := by
  unfold Armator.writeUint32
  split
  · exact hP.throw _
  · exact hP.writeBytes _ _ _

theorem scanByte (o : Nat) (value : BitVec 32) : P (Armator.scanByte data o value) := by
  refine hP.bind (hP.loadString data o) fun s => ?_
  split
  · exact hP.pure _
  · exact hP.bind (hP.emit _ rfl) fun _ => hP.pure _

theorem readBytes (is : List Nat) (o : Nat) (value : BitVec 32) (bytes : Nat → BitVec 8) :
    P (Armator.readBytes data is o value bytes) := by
  induction is generalizing o value bytes with
  | nil => exact hP.pure bytes
  | cons i is ih => exact hP.bind (hP.scanByte data o value) fun _ => ih _ _ _

theorem readUint32 (value : Nat → BitVec 32) (o : Nat) :
    P (Armator.readUint32 cfg value data o) := by
  unfold Armator.readUint32
  split
  · exact hP.throw _
  · exact hP.bind (hP.readBytes data _ _ _ _) fun _ => hP.pure _

theorem scanRegister : P (Armator.scanRegister u data) := by
  refine hP.bind (hP.loadString data 0) fun s => ?_
  split
  · exact hP.pure _
  · exact hP.bind (hP.emit _ rfl) fun _ => hP.pure _

theorem pointAfter (c : Byte) : P (Armator.pointAfter data c) := by
  unfold Armator.pointAfter
  split
  · exact hP.pure _
  · exact hP.bind (hP.emit _ rfl) fun _ => hP.pure _

theorem scanRange : P (Armator.scanRange u data) := by
  refine hP.bind (hP.loadString data 0) fun s => ?_
  split
  · exact hP.pure _
  · exact hP.bind (hP.emit _ rfl) fun _ => hP.pure _

theorem writeUnavailable (n o : Nat) : P (Armator.writeUnavailable n o) := by
  induction n generalizing o with
  | zero => exact hP.pure ()
  | succ n ih => exact hP.bind (hP.storeText o _) fun _ => ih _

theorem readUnavailable (n o : Nat) : P (Armator.readUnavailable cfg u data n o) := by
  induction n generalizing o with
  | zero => exact hP.pure ()
  | succ n ih => exact hP.bind (hP.readUint32 cfg data u.value o) fun _ => ih _

/-! ## The handlers without the processor -/

theorem killRequest : P Armator.killRequest := hP.emit _ rfl

theorem query : P (Armator.query data) :=
  hP.bind (hP.loadString data 0) fun _ =>
    hP.ite (hP.gdbSendData _) <| hP.ite (hP.gdbSendData _) <| hP.ite (hP.gdbSendData _) <|
      hP.ite (hP.gdbSendData _) (hP.gdbSendData _)

theorem setThread : P (Armator.setThread data) :=
  hP.bind (hP.loadChar data 0) fun _ => hP.bind (hP.loadString data 1) fun _ =>
    hP.ite (hP.gdbSendData _) (hP.gdbSendData _)

theorem readMemoryLoop (n : Nat) (address : BitVec 32) (value : BitVec 8) (o : Nat) :
    P (Armator.readMemoryLoop n address value o) := by
  induction n generalizing address value o with
  | zero => exact hP.pure ()
  | succ n ih =>
      exact hP.bind hP.get fun _ =>
        hP.ite (hP.bind (hP.storeText o _) fun _ => ih _ _ _) (hP.pure ())

theorem readMemory : P (Armator.readMemory u data) :=
  hP.bind (hP.scanRange u data) fun _ => hP.bind hP.get fun _ =>
    hP.bind (hP.storeChar _ 0) fun _ => hP.bind (hP.readMemoryLoop _ _ _ _) fun _ =>
      hP.gdbSendBuffer

theorem loadContent (content : Option Nat) : P (Armator.loadContent data content) := by
  cases content with
  | none => exact hP.throw _
  | some o => exact hP.loadChar data o

theorem unescape (content : Option Nat) : P (Armator.unescape data content) :=
  hP.bind (hP.loadContent data content) fun _ =>
    hP.ite (hP.bind (hP.loadContent data _) fun _ => hP.pure _) (hP.pure _)

theorem writeMemoryLoop (n : Nat) (address : BitVec 32) (content : Option Nat) (writeOk : Bool) :
    P (Armator.writeMemoryLoop data n address content writeOk) := by
  induction n generalizing address content writeOk with
  | zero => exact hP.pure writeOk
  | succ n ih =>
      exact hP.ite (hP.bind (hP.unescape data content) fun _ => hP.bind hP.get fun _ =>
        hP.bind (hP.modify _) fun _ => ih _ _ _) (hP.pure writeOk)

theorem writeMemoryBinary : P (Armator.writeMemoryBinary u data) :=
  hP.bind (hP.scanRange u data) fun _ => hP.bind (hP.pointAfter data _) fun _ =>
    hP.bind hP.get fun _ => hP.bind (hP.writeMemoryLoop data _ _ _ _) fun _ =>
      hP.ite (hP.gdbSendData _) (hP.gdbSendData _)

end PlainProperty

/-! ## The handlers with the processor -/

namespace HandlerProperty

variable {P : {α : Type} → GdbM α → Prop} (hP : HandlerProperty P) (cfg : GdbConfig)
  (u : GdbLocals) (data : List Byte)

include hP

theorem contLoop (fuel k : Nat) (instruction : BitVec 32) :
    P (Armator.contLoop cfg u fuel k instruction) := by
  induction fuel generalizing k instruction with
  | zero => exact hP.throw _
  | succ fuel ih =>
      exact hP.bind hP.disable fun _ => hP.bind (hP.arm _) fun _ => hP.bind (hP.arm _) fun _ =>
        hP.bind hP.enable fun _ => hP.ite (hP.pure ()) <|
          hP.bind (hP.arm _) fun _ => hP.bind (hP.modify _) fun _ => ih _ _

theorem writeRegisters (rs : List Nat) (o : Nat) : P (Armator.writeRegisters cfg rs o) := by
  induction rs generalizing o with
  | nil => exact hP.pure ()
  | cons i is ih =>
      exact hP.bind (hP.arm _) fun _ => hP.bind (hP.writeUint32 cfg o _) fun _ => ih _

theorem readRegisters (rs : List Nat) (o : Nat) : P (Armator.readRegisters cfg u data rs o) := by
  induction rs generalizing o with
  | nil => exact hP.pure ()
  | cons i is ih =>
      exact hP.bind (hP.readUint32 cfg data u.value o) fun _ => hP.bind (hP.arm _) fun _ => ih _

theorem run (command : Command) : P (command.run cfg u data) := by
  have hstop : P Armator.gdbSendStopReason := hP.gdbSendStopReason
  cases command with
  | cont => exact hP.bind (hP.contLoop cfg u _ _ _) fun _ => hstop
  | killRequest => exact hP.killRequest
  | query => exact hP.query data
  | readGeneralRegisters =>
      exact hP.bind hP.disable fun _ => hP.bind hP.get fun _ =>
        hP.bind (hP.writeRegisters cfg _ _) fun _ => hP.bind (hP.arm _) fun _ =>
          hP.bind (hP.writeUint32 cfg _ _) fun _ => hP.bind (hP.writeUnavailable _ _) fun _ =>
            hP.bind (hP.arm _) fun _ => hP.bind (hP.writeUint32 cfg _ _) fun _ =>
              hP.bind hP.enable fun _ => hP.gdbSendBuffer
  | readMemory => exact hP.readMemory u data
  | readRegister =>
      exact hP.bind (hP.loadString data 0) fun _ => hP.ite (hP.bind hP.disable fun _ =>
        hP.bind hP.get fun _ => hP.bind (hP.arm _) fun _ =>
          hP.bind (hP.writeUint32 cfg _ _) fun _ => hP.bind hP.enable fun _ =>
            hP.gdbSendBuffer) (hP.throw _)
  | reason => exact hstop
  | setThread => exact hP.setThread data
  | step => exact hP.bind (hP.arm _) fun _ => hP.bind (hP.modify _) fun _ => hstop
  | writeGeneralRegisters =>
      exact hP.bind hP.disable fun _ => hP.bind (hP.readRegisters cfg u data _ _) fun _ =>
        hP.bind (hP.readUnavailable cfg u data _ _) fun _ =>
          hP.bind (hP.readUint32 cfg data _ _) fun _ => hP.bind (hP.arm _) fun _ =>
            hP.bind hP.enable fun _ => hP.gdbSendData _
  | writeMemoryBinary => exact hP.writeMemoryBinary u data
  | writeRegister =>
      refine hP.bind (hP.scanRegister u data) fun reg => hP.bind (hP.pointAfter data _) fun o => ?_
      cases o with
      | none => exact hP.throw _
      | some o =>
          exact hP.bind (hP.readUint32 cfg data _ o) fun _ => hP.ite (hP.bind hP.disable fun _ =>
            hP.bind (hP.arm _) fun _ => hP.bind hP.enable fun _ => hP.gdbSendData _) (hP.throw _)

theorem dispatch (index : Byte) : P (Armator.dispatch cfg u index data) := by
  unfold Armator.dispatch
  split
  · exact hP.run cfg u data _
  · exact hP.gdbSendData []

theorem gdbPacketAnalysis (packet : List Byte) (length : Nat) :
    P (Armator.gdbPacketAnalysis cfg u packet length) :=
  hP.ite (hP.bind (hP.emit _ rfl) fun _ => hP.dispatch cfg u _ _) (hP.emit _ rfl)

end HandlerProperty

end Armator
