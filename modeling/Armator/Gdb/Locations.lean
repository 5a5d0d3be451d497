import Armator.Gdb.Protocol
import Armator.Instr.Locations

set_option autoImplicit false

/-! # The traced accesses of the handlers (`gdb_protocol.c`)

For each handler, the macros of `trace_location.h` that a call of it evaluates and the switches of
the trace around them.
-/

namespace Armator

open Logged CString

/-- Accesses one behind the other. -/
def tracedAll (as : List TracedAccess) : TracedText := as.foldr (fun a t => traced a ++ t) .done

/-- Accesses between `trace_disable()` and `trace_enable()`. -/
def untraced (t : TracedText) : List Phase := [.disable, .accesses t, .enable]

variable (cfg : GdbConfig) (u : GdbLocals) (data : List Byte)

/-- The loop of `cont`. -/
def contLoopPhases : Nat → Nat → BitVec 32 → ArmCore → List Phase
  | 0, _, _, _ => []
  | fuel + 1, k, instruction, c =>
    let r15 := (armReadRegister 15 c).value - 4
    let instruction := (armReadWord r15 instruction c).value.2
    untraced (traced (.readRegister 15) ++ traced .readWord) ++
      if instruction &&& 0xFFF000F0 = 0xE7F000F0 then []
      else
        .accesses (armStepLocations cfg.host (u.steps k) c) ::
          contLoopPhases fuel (k + 1) instruction (armStep cfg.host (u.steps k) c).state

def readGeneralRegistersPhases : List Phase :=
  untraced (tracedAll ((List.range 15).map .readRegister ++ [.readRegister 15, .readCpsr]))

def writeGeneralRegistersPhases : List Phase :=
  untraced (tracedAll ((List.range 16).map .writeRegister ++ [.writeCpsr]))

/-- The handler of `p`. -/
def readRegisterPhases : List Phase :=
  let reg := atoi (cstring data)
  if reg < 16 then untraced (traced (.readRegister reg.toNat)) else []

/-- The handler of `P`. -/
def writeRegisterPhases : List Phase :=
  let reg : BitVec 32 := match scanNumber (cstring data) with
    | some (v, _) => v
    | none => u.reg
  match index data (chr '=') with
  | none => []
  | some _ => if reg < 16 then untraced (traced (.writeRegister reg.toNat)) else []

/-- The other handlers access the memory itself or nothing at all. -/
def Command.phases (c : ArmCore) : Command → List Phase
  | .cont => contLoopPhases cfg u u.fuel 0 u.instruction c
  | .readGeneralRegisters => readGeneralRegistersPhases
  | .readRegister => readRegisterPhases data
  | .step => [.accesses (armStepLocations cfg.host (u.steps 0) c)]
  | .writeGeneralRegisters => writeGeneralRegistersPhases
  | .writeRegister => writeRegisterPhases u data
  | _ => []

/-! ## Calls -/

/-- A call that may access the processor. -/
inductive SimCall
  | armStep (u : Locals)
  | armException (exception : BitVec 8)
  | handler (command : Command) (u : GdbLocals) (data : List Byte)

def SimCall.run : SimCall → GdbM Unit
  | .armStep u => do let _ ← liftArm (Armator.armStep cfg.host u)
  | .armException exception => liftArm (Armator.armException exception)
  | .handler command u data => command.run cfg u data

def SimCall.phases (c : ArmCore) : SimCall → List Phase
  | .armStep u => [.accesses (armStepLocations cfg.host u c)]
  | .armException exception => [.accesses (armExceptionLocations exception)]
  | .handler command u data => command.phases cfg u data c

def simRun : List SimCall → GdbM Unit
  | [] => return ()
  | call :: calls => do
    call.run cfg
    simRun calls

/-- The calls of `trace.c` of each call, in some order of evaluation. A call that stops is the
last. -/
inductive SimOrder : List SimCall → Gdb → List (List TraceCall) → Prop
  | nil (g : Gdb) : SimOrder [] g []
  | next {call : SimCall} {calls : List SimCall} {g : Gdb} {ws : List TraceCall}
      {wss : List (List TraceCall)} (returns : (call.run cfg g).value = .ok ())
      (order : PhaseOrder (call.phases cfg g.arm) ws)
      (rest : SimOrder calls (call.run cfg g).state wss) : SimOrder (call :: calls) g (ws :: wss)
  | fault {call : SimCall} {calls : List SimCall} {g : Gdb} {ws : List TraceCall} {fault : Fault}
      (stops : (call.run cfg g).value = .error fault)
      (order : PhaseOrder (call.phases cfg g.arm) ws) : SimOrder (call :: calls) g [ws]

end Armator
