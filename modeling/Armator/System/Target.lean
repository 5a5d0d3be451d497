import Armator.Laws.Continue
import Armator.Laws.MemoryEnd
import Armator.Laws.SingleRegister

set_option autoImplicit false

/-! # What a debugger sees

The stub lets a debugger look at a target and change it: registers, memory, execution. Here the
requests are values, not texts, and what they mean is said without packets and buffers
(`Serves`). `Request.Text` says which texts ask for what.
-/

namespace Armator

open Logged CString

/-! ## The target -/

/-- The processor with its memory, and what it last stopped for. -/
structure Target where
  arm : ArmCore
  exception : Int

def Gdb.target (g : Gdb) : Target := ⟨g.arm, g.targetException⟩

def Gdb.withTarget (g : Gdb) (t : Target) : Gdb := (g.withArm t.arm).withException t.exception

@[simp] theorem Gdb.withTarget_target (g : Gdb) (t : Target) : (g.withTarget t).target = t := rfl

@[simp] theorem Gdb.replied_target (g : Gdb) (p : List Byte) : (g.replied p).target = g.target :=
  rfl

/-- r0 to r15 and the CPSR are set. -/
def ArmCore.withRegisters (c : ArmCore) (v : Nat → BitVec 32) (cpsr : BitVec 32) : ArmCore :=
  { c with reg := ⟨fun r => if r < 16 then v r else if r = 16 then cpsr else c.reg.rData r⟩ }

/-- The bytes `d` lie from `address` on. -/
def Memory.patched (mem : Memory) (address : BitVec 32) (d : List (BitVec 8)) : Memory :=
  { mem with address := fun i =>
      if address.toNat ≤ i ∧ i < address.toNat + d.length then d.getD (i - address.toNat) 0
      else mem.address i }

/-- The `n` bytes from `address` on. -/
def Memory.bytes (mem : Memory) (address : BitVec 32) (n : Nat) : List (BitVec 8) :=
  (List.range' address.toNat n).map mem.address

/-! ## Requests -/

inductive Request
  | reason
  | dump
  | restore (v : Nat → BitVec 32) (cpsr : BitVec 32)
  | read (r : BitVec 32)
  | write (r v : BitVec 32)
  | upload (address n : BitVec 32)
  | download (address : BitVec 32) (d : List (BitVec 8))
  | step
  | cont
  | query (q : List Byte)
  | thread (op : List Byte)
  | unknown

/-- Texts that ask for a request. `p` has its number in decimal, `P` in hexadecimal. -/
inductive Request.Text (cfg : GdbConfig) : Request → List Byte → Prop
  | reason : Text cfg .reason [chr '?']
  | dump : Text cfg .dump [chr 'g']
  | restore {v : Nat → BitVec 32} {cpsr : BitVec 32} {texts : Nat → List Byte}
      {unused cs : List Byte} (htexts : ∀ i < 16, WordDigits cfg (texts i) (v i))
      (hcpsr : WordDigits cfg cs cpsr) (hunused : unused.length = (8 * 3 + 1) * 8) :
      Text cfg (.restore v cpsr) (chr 'G' :: layout texts unused cs)
  | read {r : BitVec 32} {ns : List Byte} (hnul : ∀ b ∈ ns, b ≠ 0) (hr : atoi ns = r) :
      Text cfg (.read r) (chr 'p' :: ns)
  | write {r v : BitVec 32} {ns ws : List Byte} (hr : Digits ns r) (hv : WordDigits cfg ws v) :
      Text cfg (.write r v) (chr 'P' :: (ns ++ chr '=' :: ws))
  | upload {address n : BitVec 32} {as ns : List Byte} (ha : Digits as address)
      (hn : Digits ns n) : Text cfg (.upload address n) (uploadRequest as ns)
  | download {address n : BitVec 32} {d : List (BitVec 8)} {as ns e : List Byte}
      (ha : Digits as address) (hn : Digits ns n) (hd : n.toNat = d.length) (he : Escaped d e) :
      Text cfg (.download address d) (downloadRequest as ns e)
  | step : Text cfg .step [chr 's']
  | cont : Text cfg .cont [chr 'c']
  | query {q : List Byte} (hnul : ∀ b ∈ q, b ≠ 0) : Text cfg (.query q) (chr 'q' :: q)
  | thread {op : List Byte} (hnul : ∀ b ∈ op, b ≠ 0) : Text cfg (.thread op) (chr 'H' :: op)
  | unknown {p : List Byte} (hp : handler (p.headD 0) = none) : Text cfg .unknown p

/-! ## Their meaning -/

/-- What the target last stopped for, after `n` steps of `cont`. -/
def exceptionAfter (exception : Int) (n : Nat) : Int := if n = 0 then exception else 0

/-- Asked for a request, the target `t` answers with a payload and becomes another one. `u` holds
the indeterminate values that are met. -/
inductive Serves (cfg : GdbConfig) (u : GdbLocals) : Request → Target → List Byte → Target → Prop
  | reason (t : Target) : Serves cfg u .reason t (stopReason t.exception) t
  | dump (t : Target) : Serves cfg u .dump t (generalText cfg t.arm) t
  | restore (t : Target) (v : Nat → BitVec 32) (cpsr : BitVec 32) :
      Serves cfg u (.restore v cpsr) t (text ['O', 'K'])
        { t with arm := t.arm.withRegisters v cpsr }
  | read (t : Target) {r : BitVec 32} (hr : r < 16) :
      Serves cfg u (.read r) t (wordText cfg (slotValue t.arm r.toNat)) t
  | write (t : Target) {r : BitVec 32} (hr : r < 16) (v : BitVec 32) :
      Serves cfg u (.write r v) t (text ['O', 'K']) { t with arm := t.arm.setReg r.toNat v }
  | upload (t : Target) {address n : BitVec 32} (hn : n.toNat ≤ 509)
      (hinside : t.arm.mem.Inside address n.toNat) (hfit : address.toNat + n.toNat ≤ 2 ^ 32) :
      Serves cfg u (.upload address n) t (hexText (t.arm.mem.bytes address n.toNat)) t
  | download (t : Target) {address : BitVec 32} {d : List (BitVec 8)} (hne : d ≠ [])
      (hinside : t.arm.mem.Inside address d.length) (hfit : address.toNat + d.length ≤ 2 ^ 32) :
      Serves cfg u (.download address d) t (text ['O', 'K'])
        { t with arm := { t.arm with mem := t.arm.mem.patched address d } }
  | refuse (t : Target) {address : BitVec 32} (d : List (BitVec 8))
      (houtside : t.arm.mem.size ≤ address.toNat) :
      Serves cfg u (.download address d) t (text ['E', '0', '2']) t
  | step (t : Target) :
      Serves cfg u .step t (stopReason 0) ⟨stepState cfg.host (u.steps 0) t.arm, 0⟩
  /-- `n` words that are no breakpoint are executed, and the next one is a breakpoint. -/
  | cont (t : Target) {n : Nat} (hgo : ∀ i < n, (t.arm.after cfg.host u.steps i).Goes)
      (hstop : (t.arm.after cfg.host u.steps n).Stops) (hfuel : n < u.fuel) :
      Serves cfg u .cont t (stopReason (exceptionAfter t.exception n))
        ⟨t.arm.after cfg.host u.steps n, exceptionAfter t.exception n⟩
  | query (t : Target) (q : List Byte) : Serves cfg u (.query q) t (queryAnswer q) t
  | thread (t : Target) (op : List Byte) : Serves cfg u (.thread op) t (threadAnswer op) t
  | unknown (t : Target) : Serves cfg u .unknown t [] t

/-- Requests are served one after the other, each with its own indeterminate values. -/
inductive Served (cfg : GdbConfig) :
    List Request → List GdbLocals → Target → List (List Byte) → Target → Prop
  | nil (t : Target) : Served cfg [] [] t [] t
  | cons {r : Request} {rs : List Request} {u : GdbLocals} {us : List GdbLocals}
      {t t' t'' : Target} {p : List Byte} {ps : List (List Byte)} (hfirst : Serves cfg u r t p t')
      (hrest : Served cfg rs us t' ps t'') : Served cfg (r :: rs) (u :: us) t (p :: ps) t''

theorem Served.append {cfg : GdbConfig} {rs rs' : List Request} {us us' : List GdbLocals}
    {t t' t'' : Target} {ps ps' : List (List Byte)} (h : Served cfg rs us t ps t')
    (h' : Served cfg rs' us' t' ps' t'') :
    Served cfg (rs ++ rs') (us ++ us') t (ps ++ ps') t'' := by
  induction h with
  | nil => exact h'
  | cons hfirst _ ih => exact .cons hfirst (ih h')

end Armator
