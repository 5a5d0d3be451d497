import Armator.Basic.TraceText
import Armator.Lib.Failing

set_option autoImplicit false

/-! # What the trace of the state looks like (`arm_core.c`, `trace.c`)

`trace_arm_state` prints the registers by way of `arm_print_state`, which reads them with the traced
functions: with more flags than `STATE`, the lines of these reads stand in the middle of the text.
-/

namespace Armator

open Logged CString

/-- The other modes of `arm_constants.h`, and `STATE` of `trace.h`. -/
def FIQ : BitVec 8 := 0x11
def IRQ : BitVec 8 := 0x12
def SVC : BitVec 8 := 0x13
def ABT : BitVec 8 := 0x17
def UND : BitVec 8 := 0x1b
def STATE : BitVec 32 := 4

/-- A text that is printed, `none` where a table was left for it, or a traced call. -/
inductive Printing
  | text (printed : Option (List Byte))
  | call (e : Event)

abbrev PrintM := LogM ArmCore Printing

def fprintf (printed : Option (List Byte)) : PrintM Unit := emit (.text printed)

/-- The functions of the processor, while something is printed. -/
def reading {α : Type} (m : ArmM α) : PrintM α := zoom id (fun c _ => c) .call m

/-- `%3s` -/
def right3 (name : List Byte) : List Byte :=
  List.replicate (3 - name.length) (chr ' ') ++ name

/-- `"   %3s=%08X"` -/
def registerText (reg : Nat) (value : BitVec 32) : Option (List Byte) := do
  let name ← armGetRegisterName reg
  return text [' ', ' ', ' '] ++ right3 name ++ text ['='] ++ upperHex8 value

/-- `"\n    "` -/
def lineBreak : List Byte := text ['\n', ' ', ' ', ' ', ' ']

/-- The loop over the registers. Outside of `USR`, `count` counts them. -/
def printRegisters (mode : BitVec 8) : List Nat → Nat → PrintM Unit
  | [], _ => return ()
  | reg :: regs, count => do
    if mode = USR then
      if reg > 0 ∧ reg % 5 = 0 then fprintf (some lineBreak)
      fprintf (registerText reg (← reading (armReadUsrRegister reg)))
      printRegisters mode regs count
    else
      if count > 0 ∧ count % 5 = 0 then fprintf (some lineBreak)
      -- the registers of the current mode, whatever `mode` is
      fprintf (registerText reg (← reading (armReadRegister reg)))
      printRegisters mode regs (count + 1)

/-- Behind the registers of a mode. -/
def modeEnd (mode : BitVec 8) : List Byte :=
  if mode = USR ∨ mode = FIQ ∨ mode = SVC ∨ mode = UND then text ['\n']
  else if mode = IRQ ∨ mode = ABT then List.replicate 10 (chr ' ')
  else []

/-- The body of the loop over the modes. -/
def printMode (mode : BitVec 8) : PrintM Unit :=
  match armGetModeName mode with
  | none => fprintf none
  | some none => return ()
  | some (some name) => do
    if mode ≠ SYS then fprintf (some (name ++ text [':']))
    printRegisters mode (List.range 16) 0
    if mode = USR then
      let cpsr ← reading armReadCpsr
      fprintf (some (text [' ', ' ', 'C', 'P', 'S', 'R', '='] ++ upperHex8 cpsr))
    fprintf (some (modeEnd mode))

def printModes : List Nat → PrintM Unit
  | [] => return ()
  | mode :: modes => do
    printMode (BitVec.ofNat 8 mode)
    printModes modes

def armPrintState : PrintM Unit := printModes (List.range 32)

def traceArmState (s : Tracer) : PrintM Unit :=
  if s.prints STATE then armPrintState else return ()

/-- What is in the file afterwards. -/
def printedText (f : TraceFormat) : List Printing → Tracer → Option (List Byte)
  | [], _ => some []
  | .text printed :: ps, s => do
    let printed ← printed
    let rest ← printedText f ps s
    return printed ++ rest
  | .call e :: ps, s => do
    let (printed, s) ← e.text f s
    let rest ← printedText f ps s
    return printed ++ rest

end Armator
