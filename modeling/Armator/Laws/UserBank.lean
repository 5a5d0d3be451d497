import Armator.Basic.Registers
import Armator.Lib.LastWrite

set_option autoImplicit false

/-! # User registers from other modes

`write_usr_register` and `read_usr_register` access the register in User mode only, and there is
no bank behind the other modes: what is asked for in a privileged mode is lost
(`userBankLaw_iff`).
-/

namespace Armator

open LastWrite

/-- The calls between which the mode may change. -/
inductive UsrCall where
  | writeCpsr (value : BitVec 32)
  | writeUsrRegister (reg : Fin 16) (value : BitVec 32)

def usrStep (r : Registers) : UsrCall → Registers
  | .writeCpsr value => writeCpsr r value
  | .writeUsrRegister reg value => writeUsrRegister r reg value

def usrRun (calls : List UsrCall) (r : Registers) : Registers := calls.foldl usrStep r

/-- The mode bits of a CPSR. -/
def modeOf (cpsr : BitVec 32) : BitVec 8 := (cpsr &&& 0b11111).setWidth 8

/-- The CPSR after the calls. -/
def cpsrAfter (cpsr : BitVec 32) : List UsrCall → BitVec 32
  | [] => cpsr
  | .writeCpsr value :: calls => cpsrAfter value calls
  | .writeUsrRegister _ _ :: calls => cpsrAfter cpsr calls

/-- The writes that are asked for, in whatever mode. -/
def requested : List UsrCall → List (Nat × BitVec 32)
  | [] => []
  | .writeCpsr _ :: calls => requested calls
  | .writeUsrRegister reg value :: calls => (reg.val, value) :: requested calls

/-- The writes that are asked for in User mode. -/
def requestedInUser (cpsr : BitVec 32) : List UsrCall → List (Nat × BitVec 32)
  | [] => []
  | .writeCpsr value :: calls => requestedInUser value calls
  | .writeUsrRegister reg value :: calls =>
    if modeOf cpsr = USR then (reg.val, value) :: requestedInUser cpsr calls
    else requestedInUser cpsr calls

/-- The register `reg` after writes. -/
def valueAfter (r : Registers) (writes : List (Nat × BitVec 32)) (reg : Fin 16) : BitVec 32 :=
  (lastWrite writes reg).getD (r.rData reg)

/-- What is asked of the user register `reg` after the calls. -/
structure UserBankLaw (r : Registers) (calls : List UsrCall) (reg : Fin 16) : Prop where
  last : readUsrRegister (usrRun calls r) reg = valueAfter r (requested calls) reg
  user : getMode (usrRun calls r) = USR →
    readUsrRegister (usrRun calls r) reg = readRegister (usrRun calls r) reg

/-! ## Modes -/

theorem getMode_eq (r : Registers) : getMode r = modeOf (r.rData 16) := rfl

theorem not_inAPrivilegedMode {r : Registers} :
    ¬ inAPrivilegedMode r ↔ modeOf (r.rData 16) = USR := by
  rw [inAPrivilegedMode, getMode_eq, decide_eq_true_iff, not_not]

theorem readUsrRegister_user {r : Registers} (h : modeOf (r.rData 16) = USR) (reg : Nat) :
    readUsrRegister r reg = readRegister r reg := by
  rw [readUsrRegister, if_pos (not_inAPrivilegedMode.mpr h), readRegister]

theorem readUsrRegister_privileged {r : Registers} (h : modeOf (r.rData 16) ≠ USR) (reg : Nat) :
    readUsrRegister r reg = 0 := by
  rw [readUsrRegister, if_neg (mt not_inAPrivilegedMode.mp h)]

/-! ## Calls -/

section

variable (r : Registers) (call : UsrCall) (calls : List UsrCall)

/-- One call writes the CPSR, or a register in User mode, or nothing. -/
theorem usrStep_rData :
    (usrStep r call).rData = match call with
      | .writeCpsr value => Function.update r.rData 16 value
      | .writeUsrRegister reg value =>
        if modeOf (r.rData 16) = USR then Function.update r.rData reg value else r.rData := by
  cases call with
  | writeCpsr value => rfl
  | writeUsrRegister reg value =>
      show (writeUsrRegister r reg value).rData = _
      by_cases h : modeOf (r.rData 16) = USR
      · rw [writeUsrRegister, if_pos (not_inAPrivilegedMode.mpr h)]
        exact (if_pos h).symm
      · rw [writeUsrRegister, if_neg (mt not_inAPrivilegedMode.mp h)]
        exact (if_neg h).symm

theorem usrStep_cpsr : (usrStep r call).rData 16 = cpsrAfter (r.rData 16) [call] := by
  rw [usrStep_rData]
  cases call with
  | writeCpsr value => exact Function.update_self ..
  | writeUsrRegister reg value =>
      -- the CPSR is none of the sixteen registers
      have hne : (16 : Nat) ≠ reg := Nat.ne_of_gt reg.isLt
      dsimp only
      split
      · exact Function.update_of_ne hne _ _
      · rfl

theorem usrStep_register (reg : Fin 16) :
    (usrStep r call).rData reg
      = applyUpdates (requestedInUser (r.rData 16) [call]) r.rData reg := by
  rw [usrStep_rData]
  cases call with
  | writeCpsr value => exact Function.update_of_ne (Nat.ne_of_lt reg.isLt) _ _
  | writeUsrRegister reg' value =>
      dsimp only
      rw [requestedInUser]
      split
      · rfl
      · rfl

theorem requestedInUser_cons (cpsr : BitVec 32) :
    requestedInUser cpsr (call :: calls)
      = requestedInUser cpsr [call] ++ requestedInUser (cpsrAfter cpsr [call]) calls := by
  cases call with
  | writeCpsr value => rfl
  | writeUsrRegister reg value =>
      rw [requestedInUser, requestedInUser]
      split
      · rfl
      · rfl

/-- After the calls the CPSR is the last one written. -/
theorem usrRun_cpsr : (usrRun calls r).rData 16 = cpsrAfter (r.rData 16) calls := by
  induction calls generalizing r with
  | nil => rfl
  | cons call calls ih =>
      have hrun : usrRun (call :: calls) r = usrRun calls (usrStep r call) := rfl
      rw [hrun, ih, usrStep_cpsr]
      cases call <;> rfl

/-- After the calls the registers hold what was written in User mode. -/
theorem usrRun_register (reg : Fin 16) :
    (usrRun calls r).rData reg
      = applyUpdates (requestedInUser (r.rData 16) calls) r.rData reg := by
  induction calls generalizing r with
  | nil => rfl
  | cons call calls ih =>
      calc (usrRun (call :: calls) r).rData reg
          = (usrRun calls (usrStep r call)).rData reg := rfl
        _ = applyUpdates (requestedInUser (cpsrAfter (r.rData 16) [call]) calls)
              (usrStep r call).rData reg := by rw [ih, usrStep_cpsr]
        _ = applyUpdates (requestedInUser (cpsrAfter (r.rData 16) [call]) calls)
              (applyUpdates (requestedInUser (r.rData 16) [call]) r.rData) reg :=
            applyUpdates_congr _ (usrStep_register r call reg)
        _ = applyUpdates (requestedInUser (r.rData 16) (call :: calls)) r.rData reg := by
            rw [← applyUpdates_append, ← requestedInUser_cons]

end

/-! ## The law -/

/-- **The user registers are right exactly where the mode does not matter**: a read in User mode
misses what was written in the other modes, and a read in another mode gives 0. -/
theorem userBankLaw_iff (r : Registers) (calls : List UsrCall) (reg : Fin 16) :
    UserBankLaw r calls reg ↔
      if modeOf (cpsrAfter (r.rData 16) calls) = USR then
        valueAfter r (requestedInUser (r.rData 16) calls) reg = valueAfter r (requested calls) reg
      else valueAfter r (requested calls) reg = 0 := by
  have hreg : (usrRun calls r).rData reg = valueAfter r (requestedInUser (r.rData 16) calls) reg :=
    (usrRun_register r calls reg).trans (applyUpdates_eq _ _ _)
  rw [← usrRun_cpsr, ← hreg]
  by_cases h : modeOf ((usrRun calls r).rData 16) = USR
  · rw [if_pos h]
    constructor
    · intro hlaw
      have hlast := hlaw.last
      rw [readUsrRegister_user h] at hlast
      exact hlast
    · intro heq
      refine ⟨?_, fun _ => readUsrRegister_user h reg⟩
      rw [readUsrRegister_user h]
      exact heq
  · rw [if_neg h]
    constructor
    · intro hlaw
      have hlast := hlaw.last
      rw [readUsrRegister_privileged h] at hlast
      exact hlast.symm
    · intro hzero
      refine ⟨?_, fun hmode => absurd hmode h⟩
      rw [readUsrRegister_privileged h, hzero]

/-- The calls of a reset, and the return to User mode: the pc is not 0. -/
theorem not_userBankLaw_reset :
    ¬ UserBankLaw ⟨fun _ => 0x1000⟩
      [.writeCpsr 0x1d3, .writeUsrRegister 15 0, .writeCpsr 0x10] 15 := by
  intro hlaw
  exact absurd hlaw.last (by decide)

end Armator
