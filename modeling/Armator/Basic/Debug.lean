import Armator.Lib.Logged
import Armator.Lib.Strcmp

set_option autoImplicit false

/-! # The table of debugged files (`debug.c`)

The functions are programs over the table (`Lib/Logged.lean`); their events are the accesses
to `debugged_files`, with the index. A name is the C string its pointer reaches.
-/

namespace Armator

open Logged CString

def MAX_FILES_NUMBER : Nat := 64

/-- `debugged_files` is what an index reaches from the start of the array: beyond 63 lies what
the process holds behind it. -/
structure DebugTable where
  debuggedFiles : Int → CStr
  nbDebuggedFiles : Nat

/-- The table at the start of the program; `storage` stands for the null pointers in it. -/
def DebugTable.initial (storage : Int → CStr) : DebugTable := ⟨storage, 0⟩

/-- An access to `debugged_files`. -/
inductive TableAccess
  | read (i : Int)
  | write (i : Int)
deriving DecidableEq

def TableAccess.index : TableAccess → Int
  | read i => i
  | write i => i

abbrev DebugM := LogM DebugTable TableAccess

/-- `debugged_files[i]` -/
def readFile (i : Int) : DebugM CStr := do
  emit (.read i)
  return (← getState).debuggedFiles i

/-- `debugged_files[i] = name` -/
def writeFile (i : Int) (name : CStr) : DebugM Unit := do
  emit (.write i)
  modifyState fun t => { t with debuggedFiles := Function.update t.debuggedFiles i name }

/-- The `while` loop of `add_debug_to` from `i`, which it leaves at the latest when `i` is
`MAX_FILES_NUMBER`; the first argument counts down to that. -/
def insertionPoint (name : CStr) : Nat → Nat → DebugM Nat
  | 0, i => return i
  | left + 1, i => do
    if i < (← getState).nbDebuggedFiles ∧ i < MAX_FILES_NUMBER then
      if strcmp (← readFile i) name < 0 then insertionPoint name left (i + 1) else return i
    else return i

/-- The `for` loop of `add_debug_to` from `j` down to `i + 1`. -/
def shiftFiles (i : Nat) : Nat → DebugM Unit
  | 0 => return ()
  | j + 1 => do
    if j + 1 > i then
      writeFile (j + 1 : Nat) (← readFile j)
      shiftFiles i j

def addDebugTo (name : CStr) : DebugM Unit := do
  let i ← insertionPoint name MAX_FILES_NUMBER 0
  if i ≥ MAX_FILES_NUMBER then return ()
  shiftFiles i (← getState).nbDebuggedFiles
  writeFile i name
  modifyState fun t => { t with nbDebuggedFiles := t.nbDebuggedFiles + 1 }

/-- `__is_debugged` from the bounds `lo` and `hi` (`from` and `to`); `none` when the fuel runs
out. -/
def isDebuggedFrom (name : CStr) : Nat → Int → Int → DebugM (Option Int)
  | 0, _, _ => return none
  | fuel + 1, lo, hi => do
    if lo < hi then
      let middle := (lo + hi).tdiv 2
      let result := strcmp (← readFile middle) name
      if result < 0 then isDebuggedFrom name fuel (middle + 1) hi
      else if result > 0 then isDebuggedFrom name fuel lo (middle - 1)
      else return some 1
    else if lo = hi then
      if strcmp (← readFile lo) name = 0 then return some 1 else return some 0
    else return some 0

def isDebugged (fuel : Nat) (name : CStr) : DebugM (Option Int) := do
  isDebuggedFrom name fuel 0 ((← getState).nbDebuggedFiles - 1)

/-- The calls of `add_debug_to` for the `-d` options, in order. -/
def addDebugOptions : List CStr → DebugM Unit
  | [] => return ()
  | name :: names => do
    addDebugTo name
    addDebugOptions names

end Armator
