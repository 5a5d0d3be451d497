import Armator.Basic.Core
import Armator.Lib.CString

set_option autoImplicit false

/-! # What the trace looks like (`trace.c`, `arm_constants.c`)

`trace_memory` and `trace_register` print one line for a call, in one of two formats, if the trace
is enabled and the flag of the call is set. The names of registers and modes come from the tables of
`arm_constants.c`; a text is `none` where a table is left or a buffer overrun.
-/

namespace Armator

open CString

/-! ## `arm_constants.c` -/

def armModeNames : List (Option (List Byte)) :=
  List.replicate 16 none ++ [some (text ['U', 'S', 'R']), some (text ['F', 'I', 'Q']),
    some (text ['I', 'R', 'Q']), some (text ['S', 'V', 'C']), none, none, none,
    some (text ['A', 'B', 'T']), none, none, none, some (text ['U', 'N', 'D']), none, none, none,
    some (text ['S', 'Y', 'S'])]

def armRegisterNames : List (List Byte) :=
  [text ['R', '0', '0'], text ['R', '0', '1'], text ['R', '0', '2'], text ['R', '0', '3'],
    text ['R', '0', '4'], text ['R', '0', '5'], text ['R', '0', '6'], text ['R', '0', '7'],
    text ['R', '0', '8'], text ['R', '0', '9'], text ['R', '1', '0'], text ['R', '1', '1'],
    text ['R', '1', '2'], text ['S', 'P'], text ['L', 'R'], text ['P', 'C'],
    text ['C', 'P', 'S', 'R'], text ['S', 'P', 'S', 'R']]

def armExceptionNames : List (Option (List Byte)) :=
  [none, some (text ['r', 'e', 's', 'e', 't']),
    some (text ['u', 'n', 'd', 'e', 'f', 'i', 'n', 'e', 'd', ' ', 'i', 'n', 's', 't', 'r', 'u', 'c',
      't', 'i', 'o', 'n']),
    some (text ['s', 'o', 'f', 't', 'w', 'a', 'r', 'e', ' ', 'i', 'n', 't', 'e', 'r', 'r', 'u', 'p',
      't']),
    some (text ['p', 'r', 'e', 'f', 'e', 't', 'c', 'h', ' ', 'a', 'b', 'o', 'r', 't']),
    some (text ['d', 'a', 't', 'a', ' ', 'a', 'b', 'o', 'r', 't']),
    some (text ['i', 'n', 't', 'e', 'r', 'r', 'u', 'p', 't']),
    some (text ['f', 'a', 's', 't', ' ', 'i', 'n', 't', 'e', 'r', 'r', 'u', 'p', 't'])]

/-- Only 1 to 7 have a name. -/
def armGetExceptionName (exception : BitVec 8) : Option (List Byte) :=
  if exception < 8 then armExceptionNames.getD exception.toNat none else none

/-- `none` behind the table; a mode may have no name. -/
def armGetModeName (mode : BitVec 8) : Option (Option (List Byte)) := armModeNames[mode.toNat]?

/-- `none` behind the table. -/
def armGetRegisterName (reg : Nat) : Option (List Byte) := armRegisterNames[reg]?

/-! ## `fprintf` -/

/-- `%d` of a number that is not negative -/
def decimal (n : Nat) : List Byte :=
  if n < 10 then [hexDigit n] else decimal (n / 10) ++ [hexDigit (n % 10)]
decreasing_by omega

/-- `%d` -/
def signedDecimal (v : Int) : List Byte :=
  if v < 0 then chr '-' :: decimal v.natAbs else decimal v.natAbs

/-- The uppercase digit of a number below 16. -/
def upperHexDigit (n : Nat) : Byte := BitVec.ofNat 8 (if n < 10 then 48 + n else 55 + n)

/-- `%08X` -/
def upperHex8 (v : BitVec 32) : List Byte :=
  (List.range 8).reverse.map fun k => upperHexDigit (v.toNat / 16 ^ k % 16)

/-! ## `trace.c` -/

/-- With `ARM_TRACE_FORMAT` and without it. -/
inductive TraceFormat
  | arm
  | plain
deriving DecidableEq

def TraceFormat.memorySeq : TraceFormat → Bool → List Byte
  | .arm, seq => if seq then text ['S'] else text ['N']
  | .plain, _ => []

def TraceFormat.memoryCause : TraceFormat → Cause → List Byte
  | .arm, .otherAccess => text ['_']
  | .arm, .opcodeFetch => text ['O']
  | .plain, .otherAccess => []
  | .plain, .opcodeFetch => text [',', ' ', 'f', 'e', 't', 'c', 'h']

/-- `trace_memory_type` and `trace_register_type` are the same. -/
def TraceFormat.type : TraceFormat → Access → List Byte
  | .arm, .write => text ['W']
  | .arm, .read => text ['R']
  | .plain, .write => text ['w', 'r', 'i', 't', 'e']
  | .plain, .read => text ['r', 'e', 'a', 'd']

/-- `MEMORY`, `REGISTERS` and `POSITION` of `trace.h`. -/
def MEMORY : BitVec 32 := 1
def REGISTERS : BitVec 32 := 2
def POSITION : BitVec 32 := 8

/-- The static variables that the texts depend on. `location k` is the entry at
`location_stack_top` in the call behind the next `k`. -/
structure Tracer where
  lastAddress : BitVec 32
  enabled : Bool
  location : Nat → Option (List Byte × Int)
  traceFlags : BitVec 32

/-- `enabled && (trace_flags & flag)` -/
def Tracer.prints (s : Tracer) (flag : BitVec 32) : Bool := s.enabled && s.traceFlags &&& flag != 0

/-- In front of the next call. Locations are pushed while the trace is enabled. -/
def Tracer.next (s : Tracer) : Tracer :=
  if s.enabled then { s with location := fun k => s.location (k + 1) } else s

def tracePrintLocation (s : Tracer) : List Byte :=
  if s.prints POSITION then
    match s.location 0 with
    | some (file, line) => file ++ text [',', ' '] ++ signedDecimal line ++ text [':', ' ']
    | none => []
  else []

/-- Only the plain format prints positions. -/
def TraceFormat.location : TraceFormat → Tracer → List Byte
  | .arm, _ => []
  | .plain, s => tracePrintLocation s

def cycleText (cycle : BitVec 32) : List Byte :=
  text ['C', 'y', 'c', 'l', 'e', ' '] ++ signedDecimal cycle.toInt ++ text [',', ' ']

def memoryLine (f : TraceFormat) (seq : Bool) (cycle : BitVec 32) (type : Access) (size : Nat)
    (cause : Cause) (address value : BitVec 32) : List Byte :=
  match f with
  | .arm =>
    text ['M'] ++ f.memorySeq seq ++ f.type type ++ decimal size ++ f.memoryCause cause ++
      text ['_', '_', ' '] ++ upperHex8 address ++ text [' '] ++ upperHex8 value ++ text ['\n']
  | .plain =>
    cycleText cycle ++ text ['M', 'e', 'm', ' '] ++ f.memorySeq seq ++ f.type type ++
      text [' ', '('] ++ decimal size ++ text [' ', 'b', 'y', 't', 'e', 's'] ++
      f.memoryCause cause ++ text [')', ' ', 'a', 'd', 'd', 'r', ':', ' '] ++ upperHex8 address ++
      text [',', ' ', 'v', 'a', 'l', ':', ' '] ++ upperHex8 value ++ text ['\n']

def traceMemoryText (f : TraceFormat) (cycle : BitVec 32) (type : Access) (size : Nat)
    (cause : Cause) (address value : BitVec 32) (s : Tracer) : List Byte × Tracer :=
  if s.prints MEMORY then
    let seq := address == s.lastAddress + 4
    (f.location s ++ memoryLine f seq cycle type size cause address value,
      { s.next with lastAddress := address })
  else ([], s.next)

/-- `mode_name`; `none` where the table or the buffer of five characters is left. -/
def modeName (mode : BitVec 8) : Option (List Byte) :=
  match armGetModeName mode with
  | none => none
  | some none => some []
  | some (some name) => if name.length + 2 ≤ 5 then some (text ['_'] ++ name) else none

def registerLine (f : TraceFormat) (cycle : BitVec 32) (type : Access) (name : List Byte)
    (value : BitVec 32) : List Byte :=
  match f with
  | .arm => text ['R'] ++ f.type type ++ text [' '] ++ name ++ text [' '] ++ upperHex8 value ++
      text ['\n']
  | .plain =>
    cycleText cycle ++ text ['R', 'e', 'g', 'i', 's', 't', 'e', 'r', ' '] ++ f.type type ++
      text [',', ' '] ++ name ++ text [',', ' ', 'v', 'a', 'l', ':', ' '] ++ upperHex8 value ++
      text ['\n']

def traceRegisterText (f : TraceFormat) (cycle : BitVec 32) (type : Access) (reg : Nat)
    (mode : BitVec 8) (value : BitVec 32) (s : Tracer) : Option (List Byte) :=
  if s.prints REGISTERS then do
    let mode ← modeName mode
    let name ← armGetRegisterName reg
    return f.location s ++ registerLine f cycle type (name ++ mode) value
  else some []

/-- What is printed for a call. -/
def Event.text (f : TraceFormat) (s : Tracer) : Event → Option (List Byte × Tracer)
  | .memory cycle type size cause address value =>
    some (traceMemoryText f cycle type size cause address value s)
  | .register cycle type reg mode value => do
    let printed ← traceRegisterText f cycle type reg mode value s
    return (printed, s.next)
  | .exception _ => some ([], s)

/-- What is printed for the calls of some code. -/
def traceText (f : TraceFormat) : List Event → Tracer → Option (List Byte)
  | [], _ => some []
  | e :: es, s => do
    let (printed, s) ← e.text f s
    let rest ← traceText f es s
    return printed ++ rest

end Armator
