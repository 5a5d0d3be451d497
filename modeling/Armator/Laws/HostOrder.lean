import Armator.System.Threads
import Armator.Semantics.WordText

set_option autoImplicit false

/-! # The byte order of the host

The stub converts words with a union, forwards or backwards, which depends on the byte order of the
host it was built for. Nobody can tell: whatever arrives, in whatever interleaving, the simulator
does the same on either kind of host (`hostOrder_unobservable`).
-/

namespace Armator

open Logged CString Critical

/-- The same simulator on another host. -/
def GdbConfig.on (cfg : GdbConfig) (bigEndian : Bool) : GdbConfig :=
  { cfg with hostBigEndian := bigEndian }

/-! ## The codec -/

section

variable (cfg : GdbConfig) (bigEndian : Bool)

/-- Only the bytes in the order of the loop matter. -/
theorem writeBytes_congr {bytes bytes' : Nat → BitVec 8} {is js : List Nat}
    (h : is.map bytes = js.map bytes') (o : Nat) :
    writeBytes bytes is o = writeBytes bytes' js o := by
  induction is generalizing js o with
  | nil =>
      cases List.map_eq_nil_iff.mp h.symm
      rfl
  | cons i is ih =>
      obtain ⟨j, js, rfl, hj, hjs⟩ := List.map_eq_cons_iff.mp h.symm
      rw [writeBytes, writeBytes, hj]
      exact congrArg _ (funext fun _ => ih hjs.symm (o + 2))

/-- Only what is made of the assigned bytes matters. -/
theorem readBytes_congr {α : Type} {data : List Byte} {is js : List Nat}
    {bytes bytes' : Nat → BitVec 8} {f f' : (Nat → BitVec 8) → GdbM α}
    (hlength : is.length = js.length)
    (h : ∀ bs, bs.length = is.length →
      f (assignedBytes bytes is bs) = f' (assignedBytes bytes' js bs))
    (o : Nat) (value : BitVec 32) :
    readBytes data is o value bytes >>= f = readBytes data js o value bytes' >>= f' := by
  induction is generalizing js bytes bytes' o value with
  | nil =>
      cases List.eq_nil_of_length_eq_zero hlength.symm
      exact h [] rfl
  | cons i is ih =>
      obtain ⟨j, js, rfl⟩ := List.exists_cons_of_length_eq_add_one hlength.symm
      rw [readBytes, readBytes, LawfulMonad.bind_assoc, LawfulMonad.bind_assoc]
      refine congrArg _ (funext fun v => ?_)
      exact ih (Nat.succ.inj hlength) (fun bs hbs => h (_ :: bs) (congrArg _ hbs)) (o + 2) v

theorem writeUint32_on (o : Nat) (value : BitVec 32) :
    writeUint32 (cfg.on bigEndian) o value = writeUint32 cfg o value := by
  have hbytes := (bytesOfInteger_map (cfg.on bigEndian) value).trans
    (bytesOfInteger_map cfg value).symm
  rw [writeUint32, writeUint32, unionIndices_eq, unionIndices_eq]
  exact writeBytes_congr hbytes o

theorem readUint32_on (value : Nat → BitVec 32) (data : List Byte) (o : Nat) :
    readUint32 (cfg.on bigEndian) value data o = readUint32 cfg value data o := by
  have hlength (cfg : GdbConfig) : (if cfg.hostBigEndian = cfg.targetBigEndian then [0, 1, 2, 3]
      else [3, 2, 1, 0]).length = 4 := by
    split <;> rfl
  rw [readUint32, readUint32, unionIndices_eq, unionIndices_eq]
  refine readBytes_congr ((hlength _).trans (hlength cfg).symm) (fun bs hbs => ?_) o (value o)
  have hfour := hbs.trans (hlength _)
  rw [integerOfBytes_assigned _ _ hfour, integerOfBytes_assigned _ _ hfour]
  rfl

/-! ## The handlers -/

theorem writeRegisters_on (rs : List Nat) (position : Nat) :
    writeRegisters (cfg.on bigEndian) rs position = writeRegisters cfg rs position := by
  induction rs generalizing position with
  | nil => rfl
  | cons r rs ih => simp only [writeRegisters, writeUint32_on, ih]

theorem readRegisters_on (u : GdbLocals) (data : List Byte) (rs : List Nat) (position : Nat) :
    readRegisters (cfg.on bigEndian) u data rs position = readRegisters cfg u data rs position := by
  induction rs generalizing position with
  | nil => rfl
  | cons r rs ih => simp only [readRegisters, readUint32_on, ih]

theorem readUnavailable_on (u : GdbLocals) (data : List Byte) (n position : Nat) :
    readUnavailable (cfg.on bigEndian) u data n position
      = readUnavailable cfg u data n position := by
  induction n generalizing position with
  | zero => rfl
  | succ n ih => simp only [readUnavailable, readUint32_on, ih]

theorem contLoop_on (u : GdbLocals) (fuel k : Nat) (instruction : BitVec 32) :
    contLoop (cfg.on bigEndian) u fuel k instruction = contLoop cfg u fuel k instruction := by
  induction fuel generalizing k instruction with
  | zero => rfl
  | succ fuel ih =>
      simp only [contLoop, ih]
      rfl

/-- No handler depends on the host. -/
theorem run_on (u : GdbLocals) (data : List Byte) (command : Command) :
    command.run (cfg.on bigEndian) u data = command.run cfg u data := by
  cases command with
  | cont => simp only [Command.run, cont, contLoop_on]
  | readGeneralRegisters =>
      simp only [Command.run, readGeneralRegisters, writeRegisters_on, writeUint32_on]
  | readRegister => simp only [Command.run, readRegisterHandler, writeUint32_on]
  | writeGeneralRegisters =>
      simp only [Command.run, writeGeneralRegisters, readRegisters_on, readUnavailable_on,
        readUint32_on]
  | writeRegister => simp only [Command.run, writeRegisterHandler, readUint32_on]
  | _ => rfl

/-! ## The scanner -/

theorem act_on (u : GdbLocals) (behind : List Byte) (len : Nat) (t : ScannerToken) :
    t.act (cfg.on bigEndian) u behind len = t.act cfg u behind len := by
  cases t with
  | packet yytext =>
      have hdispatch (index : Byte) (data : List Byte) :
          dispatch (cfg.on bigEndian) u index data = dispatch cfg u index data := by
        unfold dispatch
        split
        · exact run_on cfg bigEndian u data _
        · rfl
      simp only [ScannerToken.act, gdbPacketAnalysis, hdispatch]
  | _ => rfl

theorem actAll_on (arrivals : List Arrival) (len : Nat) :
    actAll (cfg.on bigEndian) arrivals len = actAll cfg arrivals len := by
  induction arrivals generalizing len with
  | nil => rfl
  | cons a arrivals ih => simp only [actAll, act_on, ih]

/-! ## The listeners -/

variable {cfg bigEndian}

theorem GdbOwn.on {l l' : GdbListener} (h : GdbOwn cfg l l') : GdbOwn (cfg.on bigEndian) l l' := by
  cases h with
  | token hnone hact => exact .token hnone (by rw [act_on]; exact hact)
  | request hsome hact => exact .request hsome hact
  | eof hact => exact .eof hact

theorem GdbShared.on {x y : GdbListener × Shared} (h : GdbShared cfg x y) :
    GdbShared (cfg.on bigEndian) x y := by
  cases h with
  | handle hpoint hcont =>
      rw [← run_on cfg bigEndian]
      exact .handle hpoint hcont
  | enter hpoint => exact .enter hpoint
  | look hpoint => exact .look hpoint
  | step hpoint => exact @GdbShared.step (cfg.on bigEndian) _ _ _ _ _ hpoint
  | report hpoint => exact .report hpoint

theorem step_on {c c' : Simulator} (h : Step (listeners cfg) c c') :
    Step (listeners (cfg.on bigEndian)) c c' := by
  cases h with
  | own i hown =>
      cases i with
      | gdb => exact .own Listener.gdb (GdbOwn.on hown)
      | irq => exact .own Listener.irq hown
  | lock i hfree hlock =>
      cases i with
      | gdb => exact .lock Listener.gdb hfree hlock
      | irq => exact .lock Listener.irq hfree hlock
  | shared i howner hshared =>
      cases i with
      | gdb => exact .shared Listener.gdb howner (GdbShared.on hshared)
      | irq => exact .shared Listener.irq howner hshared
  | unlock i howner hunlock =>
      cases i with
      | gdb => exact .unlock Listener.gdb howner hunlock
      | irq => exact .unlock Listener.irq howner hunlock

theorem reaches_on {c c' : Simulator} (h : Reaches (listeners cfg) c c') :
    Reaches (listeners (cfg.on bigEndian)) c c' :=
  Relation.ReflTransGen.mono (fun _ _ hstep => step_on hstep) _ _ h

end

/-! ## The law -/

/-- **The byte order of the host cannot be observed**, neither by a debugger that is alone with the
simulator nor in any interleaving with interrupts. -/
theorem hostOrder_unobservable (cfg : GdbConfig) (bigEndian : Bool) :
    (∀ arrivals, yylex (cfg.on bigEndian) arrivals = yylex cfg arrivals) ∧
      ∀ c c', Reaches (listeners (cfg.on bigEndian)) c c' ↔ Reaches (listeners cfg) c c' := by
  refine ⟨fun arrivals => ?_, fun c c' => ⟨fun h => ?_, reaches_on⟩⟩
  · simp only [yylex, actAll_on]
  · -- the way back is another change of the host
    have hback : Reaches (listeners ((cfg.on bigEndian).on cfg.hostBigEndian)) c c' := reaches_on h
    exact hback

end Armator
