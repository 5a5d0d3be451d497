import Armator.Basic.TraceText
import Armator.Basic.Util

set_option autoImplicit false

/-! # Sending interrupts (`send_irq.c`)

`send_irq host port [name]` looks the name up in the table of the exceptions and sends its number,
one byte, to the irq listener. Nothing is sent for a name that is not in the table.
-/

namespace Armator

open CString

def INTERRUPT : BitVec 8 := 6

theorem armGetExceptionName_lt {irq : BitVec 8} {name : List Byte}
    (h : armGetExceptionName irq = some name) : irq.toNat < 8 := by
  unfold armGetExceptionName at h
  split at h
  · rename_i hlt
    exact hlt
  · cases h

/-- The `while` loop, from `irq` on. -/
def searchIrq (name : List Byte) (irq : BitVec 8) : Option (BitVec 8) :=
  match hname : armGetExceptionName irq with
  | none => none
  | some irqName => if irqName = name then some irq else searchIrq name (irq + 1)
termination_by 8 - irq.toNat
decreasing_by
  have hlt := armGetExceptionName_lt hname
  rw [BitVec.toNat_add]
  show 8 - (irq.toNat + 1) % 256 < 8 - irq.toNat
  omega

/-- What becomes of a sender. -/
inductive SendIrq
  /-- `exit(1)` -/
  | usage
  /-- `exit(2)` -/
  | unknown
  | sent (irq : BitVec 8)
deriving DecidableEq

/-- `main` of `send_irq.c`; `argv` has the name of the program first. -/
def sendIrq (argv : List (List Byte)) : SendIrq :=
  if argv.length < 3 then .usage
  else if argv.length < 4 then .sent INTERRUPT
  else
    match searchIrq (argv.getD 3 []) (BitVec.ofInt 8 RESET) with
    | some irq => .sent irq
    | none => .unknown

def SendIrq.irq? : SendIrq → Option (BitVec 8)
  | sent irq => some irq
  | _ => none

/-- The connections that the irq listener accepts: one with one byte for each sender that sends. -/
def connectionsOf (argvs : List (List (List Byte))) : List (List (BitVec 8)) :=
  argvs.filterMap fun argv => (sendIrq argv).irq?.map fun irq => [irq]

/-- The name of the exception that a sender asks for, if there is such an exception. -/
def asked (argv : List (List Byte)) : Option (List Byte) :=
  if argv.length < 3 then none
  else if argv.length < 4 then some (text ['i', 'n', 't', 'e', 'r', 'r', 'u', 'p', 't'])
  else if some (argv.getD 3 []) ∈ armExceptionNames then some (argv.getD 3 [])
  else none

/-! ## The search -/

section

variable {name irqName : List Byte} {irq : BitVec 8}

/-- A number below 8 has the name that stands there in the table. -/
theorem armGetExceptionName_eq (hlt : irq.toNat < 8) :
    armGetExceptionName irq = armExceptionNames.get ⟨irq.toNat, hlt⟩ := by
  have hless : irq < 8 := BitVec.lt_def.mpr hlt
  rw [armGetExceptionName, if_pos hless, List.getD_eq_getElem?_getD, List.getElem?_eq_getElem hlt]
  rfl

/-- The search does not leave the table before its end. -/
theorem armGetExceptionName_ne_none (hlow : 1 ≤ irq.toNat) (hhigh : irq.toNat < 8) :
    armGetExceptionName irq ≠ none := by
  have hall : ∀ n : Fin armExceptionNames.length, 1 ≤ n.val → armExceptionNames.get n ≠ none := by
    decide
  rw [armGetExceptionName_eq hhigh]
  exact hall ⟨irq.toNat, hhigh⟩ hlow

theorem exists_of_mem_names (h : some name ∈ armExceptionNames) :
    ∃ irq : BitVec 8, 1 ≤ irq.toNat ∧ armGetExceptionName irq = some name := by
  obtain ⟨⟨i, hi⟩, hname⟩ := List.mem_iff_get.mp h
  have hlt : i < 8 := hi
  have htoNat : (BitVec.ofNat 8 i).toNat = i := by
    rw [BitVec.toNat_ofNat]
    omega
  have hpos : 1 ≤ i := by
    rcases Nat.eq_zero_or_pos i with rfl | hpos
    · cases hname
    · exact hpos
  refine ⟨BitVec.ofNat 8 i, by omega, ?_⟩
  rw [armGetExceptionName_eq (by omega), ← hname]
  simp only [htoNat]

theorem mem_names (h : armGetExceptionName irq = some name) : some name ∈ armExceptionNames := by
  have hlt := armGetExceptionName_lt h
  rw [armGetExceptionName_eq hlt] at h
  exact h ▸ List.get_mem _ _

theorem searchIrq_none (h : armGetExceptionName irq = none) : searchIrq name irq = none := by
  rw [searchIrq]
  split
  · rfl
  · rename_i hsome
    rw [h] at hsome
    cases hsome

theorem searchIrq_some (h : armGetExceptionName irq = some irqName) :
    searchIrq name irq = if irqName = name then some irq else searchIrq name (irq + 1) := by
  rw [searchIrq]
  split
  · rename_i hnone
    rw [h] at hnone
    cases hnone
  · rename_i hsome
    rw [h] at hsome
    cases hsome
    rfl

/-- The search finds a name that is there, and nothing else. -/
theorem searchIrq_spec (name : List Byte) (irq : BitVec 8) (hlow : 1 ≤ irq.toNat)
    (hhigh : irq.toNat ≤ 8) :
    (∃ found, searchIrq name irq = some found ∧ armGetExceptionName found = some name) ∨
      (searchIrq name irq = none ∧
        ∀ other : BitVec 8, irq.toNat ≤ other.toNat → armGetExceptionName other ≠ some name) := by
  induction irq using searchIrq.induct name with
  | case1 irq hnone =>
      -- only behind the table there is no name
      have hend : irq.toNat = 8 := by
        by_contra hne
        exact armGetExceptionName_ne_none hlow (by omega) hnone
      refine .inr ⟨searchIrq_none hnone, fun other hle hname => ?_⟩
      have hlt := armGetExceptionName_lt hname
      omega
  | case2 irq hsome => exact .inl ⟨irq, by rw [searchIrq_some hsome, if_pos rfl], hsome⟩
  | case3 irq irqName hsome hne ih =>
      have hlt := armGetExceptionName_lt hsome
      have hnext : (irq + 1).toNat = irq.toNat + 1 := by
        rw [BitVec.toNat_add]
        show (irq.toNat + 1) % 256 = irq.toNat + 1
        omega
      rw [searchIrq_some hsome, if_neg hne]
      rcases ih (by omega) (by omega) with hfound | ⟨hnot, hrest⟩
      · exact .inl hfound
      · refine .inr ⟨hnot, fun other hle hname => ?_⟩
        rcases Nat.lt_or_eq_of_le hle with hlt | heq
        · exact hrest other (by omega) hname
        · rw [← BitVec.eq_of_toNat_eq heq, hsome] at hname
          exact hne (Option.some.inj hname)

end

/-! ## What is sent -/

/-- **The number that is sent is that of the name that is asked for.** -/
theorem sendIrq_asked (argv : List (List Byte)) :
    (sendIrq argv).irq?.map armGetExceptionName = (asked argv).map some := by
  unfold sendIrq asked
  split
  · rfl
  · split
    · rfl
    · rcases searchIrq_spec (argv.getD 3 []) (BitVec.ofInt 8 RESET) (by decide) (by decide) with
        ⟨found, hfound, hname⟩ | ⟨hnot, hnone⟩
      · rw [hfound, if_pos (mem_names hname)]
        exact congrArg some hname
      · rw [hnot, if_neg]
        · rfl
        · intro hmem
          obtain ⟨irq, hpos, hname⟩ := exists_of_mem_names hmem
          exact hnone irq hpos hname

/-- The senders that are heard, by the names of their exceptions. -/
theorem connectionsOf_names (argvs : List (List (List Byte))) :
    (connectionsOf argvs).flatten.map armGetExceptionName = (argvs.filterMap asked).map some := by
  induction argvs with
  | nil => rfl
  | cons argv argvs ih =>
      have hfirst := sendIrq_asked argv
      rw [connectionsOf, List.filterMap_cons, List.filterMap_cons]
      cases hirq : (sendIrq argv).irq? with
      | none =>
          rw [hirq] at hfirst
          rw [Option.map_eq_none_iff.mp hfirst.symm]
          exact ih
      | some irq =>
          rw [hirq] at hfirst
          obtain ⟨name, hname, heq⟩ := Option.map_eq_some_iff.mp hfirst.symm
          rw [hname]
          exact congrArg₂ List.cons heq.symm ih

end Armator
