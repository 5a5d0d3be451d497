import Armator.Lib.Blind
import Armator.Semantics.Run
import Armator.Semantics.Step

set_option autoImplicit false

/-! # Words planted into a program

Some words of the memory are replaced. A program whose accesses spare them does the same as
before, step by step, and leaves them alone (`planting_after`).
-/

namespace Armator

open Logged

/-! ## The words -/

/-- The cell `i` belongs to one of the words at `bs`. -/
def Marked (bs : List (BitVec 32)) (i : Nat) : Prop := ∃ b ∈ bs, b.toNat ≤ i ∧ i < b.toNat + 4

instance (bs : List (BitVec 32)) (i : Nat) : Decidable (Marked bs i) :=
  List.decidableBEx (fun b : BitVec 32 => b.toNat ≤ i ∧ i < b.toNat + 4) bs

/-- The words at `bs` are replaced by what `f` holds. -/
def Memory.planted (mem : Memory) (bs : List (BitVec 32)) (f : Nat → BitVec 8) : Memory :=
  { mem with address := fun i => if Marked bs i then f i else mem.address i }

def ArmCore.planted (c : ArmCore) (bs : List (BitVec 32)) (f : Nat → BitVec 8) : ArmCore :=
  { c with mem := c.mem.planted bs f }

/-- An access that has nothing to do with the words at `bs`. -/
def Event.Spares (bs : List (BitVec 32)) : Event → Prop
  | .memory _ _ size _ address _ => ∀ i ∈ covered address size, ¬ Marked bs i
  | _ => True

instance (bs : List (BitVec 32)) (e : Event) : Decidable (e.Spares bs) := by
  cases e with
  | memory => exact inferInstanceAs (Decidable (∀ i ∈ _, _))
  | _ => exact inferInstanceAs (Decidable True)

/-- `c'` is `c` with `f` in the words at `bs`, where `c` has `o`. -/
structure Planting (bs : List (BitVec 32)) (f o : Nat → BitVec 8) (c c' : ArmCore) : Prop where
  eq : c' = c.planted bs f
  kept : ∀ i, Marked bs i → c.mem.address i = o i

section

variable {bs : List (BitVec 32)} {f o : Nat → BitVec 8} {mem : Memory} {c c' : ArmCore}

/-! ## Memory -/

theorem Memory.planted_of_marked {i : Nat} (h : Marked bs i) : (mem.planted bs f).address i = f i :=
  if_pos h

theorem Memory.planted_of_not_marked {i : Nat} (h : ¬ Marked bs i) :
    (mem.planted bs f).address i = mem.address i := if_neg h

theorem Memory.planted_get {i : BitVec 32} (h : ¬ Marked bs i.toNat) :
    (mem.planted bs f).get i = mem.get i := planted_of_not_marked h

/-- The bytes of an access that spares the words. -/
theorem Memory.planted_joined {address : BitVec 32} {n : Nat}
    (h : ∀ i ∈ covered address n, ¬ Marked bs i) :
    (mem.planted bs f).joined address n = mem.joined address n := by
  have hcells : (covered address n).map (mem.planted bs f).address
      = (covered address n).map mem.address :=
    List.map_congr_left fun i hi => planted_of_not_marked (h i hi)
  rw [joined, joined, hcells]
  rfl

theorem memoryReadByte_planted (f : Nat → BitVec 8) (mem : Memory) {address : BitVec 32}
    (h : ∀ i ∈ covered address 1, ¬ Marked bs i) (value : BitVec 8) :
    memoryReadByte (mem.planted bs f) address value = memoryReadByte mem address value := by
  rw [covered_one, List.forall_mem_singleton] at h
  rw [memoryReadByte, memoryReadByte, Memory.planted_get h]
  rfl

theorem memoryReadWord_planted (f : Nat → BitVec 8) (mem : Memory) {address : BitVec 32}
    (h : ∀ i ∈ covered address 4, ¬ Marked bs i) (value : BitVec 32) :
    memoryReadWord (mem.planted bs f) address value = memoryReadWord mem address value := by
  rw [covered_four] at h
  simp only [List.forall_mem_cons] at h
  obtain ⟨h₀, h₁, h₂, h₃, -⟩ := h
  rw [memoryReadWord, memoryReadWord, Memory.planted_get h₀, Memory.planted_get h₁,
    Memory.planted_get h₂, Memory.planted_get h₃]
  rfl

/-- Writing beside the words. -/
theorem Memory.set_planted {i : BitVec 32} (h : ¬ Marked bs i.toNat) (v : BitVec 8) :
    (mem.planted bs f).set i v = (mem.set i v).planted bs f := by
  refine eq_of_cells rfl rfl fun j => ?_
  show Function.update (mem.planted bs f).address i.toNat v j
    = if Marked bs j then f j else Function.update mem.address i.toNat v j
  by_cases hj : j = i.toNat
  · subst hj
    rw [Function.update_self, Function.update_self, if_neg h]
  · rw [Function.update_of_ne hj, Function.update_of_ne hj]
    rfl

theorem Memory.set_kept {i : BitVec 32} (h : ¬ Marked bs i.toNat) (v : BitVec 8) {j : Nat}
    (hj : Marked bs j) : (mem.set i v).address j = mem.address j := by
  have hne : j ≠ i.toNat := fun heq => h (heq ▸ hj)
  exact Function.update_of_ne hne v mem.address

/-! ## Accesses -/

theorem Planting.set (h : Planting bs f o c c') {i : BitVec 32} (hi : ¬ Marked bs i.toNat)
    (v : BitVec 8) :
    Planting bs f o { c with mem := c.mem.set i v } { c' with mem := c'.mem.set i v } := by
  obtain ⟨rfl, hkept⟩ := h
  refine ⟨congrArg (ArmCore.mk c.cycleCount c.reg) (Memory.set_planted hi v), fun j hj => ?_⟩
  rw [Memory.set_kept hi v hj]
  exact hkept j hj

theorem Planting.writeWord (h : Planting bs f o c c') {address : BitVec 32}
    (hspares : ∀ i ∈ covered address 4, ¬ Marked bs i) (value : BitVec 32) :
    Planting bs f o { c with mem := (memoryWriteWord c.mem address value).2 }
      { c' with mem := (memoryWriteWord c'.mem address value).2 } := by
  rw [covered_four] at hspares
  simp only [List.forall_mem_cons] at hspares
  obtain ⟨h₀, h₁, h₂, h₃, -⟩ := hspares
  have hfour (w x y z : BitVec 8) := (((h.set h₀ w).set h₁ x).set h₂ y).set h₃ z
  have horder : c'.mem.isBigEndian = c.mem.isBigEndian := by
    rw [h.eq]
    rfl
  rw [memoryWriteWord, memoryWriteWord, horder]
  split
  · exact hfour _ _ _ _
  · exact hfour _ _ _ _

end

section

variable {bs : List (BitVec 32)} {f o : Nat → BitVec 8}

theorem armReadRegister_blind (reg : Nat) :
    Blind (Planting bs f o) (· = ·) (Event.Spares bs) (armReadRegister reg) := by
  intro c c' h _
  obtain ⟨rfl, hkept⟩ := h
  exact .ofEq rfl ⟨rfl, hkept⟩

theorem armReadCpsr_blind : Blind (Planting bs f o) (· = ·) (Event.Spares bs) armReadCpsr := by
  intro c c' h _
  obtain ⟨rfl, hkept⟩ := h
  exact .ofEq rfl ⟨rfl, hkept⟩

theorem armWriteRegister_blind (reg : Nat) (value : BitVec 32) :
    Blind (Planting bs f o) (· = ·) (Event.Spares bs) (armWriteRegister reg value) := by
  intro c c' h _
  obtain ⟨rfl, hkept⟩ := h
  exact .ofEq rfl ⟨rfl, hkept⟩

theorem armWriteCpsr_blind (value : BitVec 32) :
    Blind (Planting bs f o) (· = ·) (Event.Spares bs) (armWriteCpsr value) := by
  intro c c' h _
  obtain ⟨rfl, hkept⟩ := h
  exact .ofEq rfl ⟨rfl, hkept⟩

theorem armWriteUsrRegister_blind (reg : Nat) (value : BitVec 32) :
    Blind (Planting bs f o) (· = ·) (Event.Spares bs) (armWriteUsrRegister reg value) := by
  intro c c' h _
  obtain ⟨rfl, hkept⟩ := h
  exact .ofEq rfl ⟨rfl, hkept⟩

theorem armReadByte_blind (address : BitVec 32) (value : BitVec 8) :
    Blind (Planting bs f o) (· = ·) (Event.Spares bs) (armReadByte address value) := by
  intro c c' h hevents
  obtain ⟨rfl, hkept⟩ := h
  have hspares : ∀ i ∈ covered address 1, ¬ Marked bs i := List.forall_mem_singleton.mp hevents
  have hread := memoryReadByte_planted f c.mem hspares value
  refine .ofEq ?_ (⟨rfl, hkept⟩ : Planting bs f o c (c.planted bs f))
  show (⟨memoryReadByte (c.mem.planted bs f) address value, _, [Event.memory _ _ _ _ _
    ((memoryReadByte (c.mem.planted bs f) address value).2.setWidth 32)]⟩ : Outcome _ _ _) = _
  rw [hread]
  rfl

theorem armReadWord_blind (address value : BitVec 32) :
    Blind (Planting bs f o) (· = ·) (Event.Spares bs) (armReadWord address value) := by
  intro c c' h hevents
  obtain ⟨rfl, hkept⟩ := h
  have hspares : ∀ i ∈ covered address 4, ¬ Marked bs i := List.forall_mem_singleton.mp hevents
  have hread := memoryReadWord_planted f c.mem hspares value
  refine .ofEq ?_ (⟨rfl, hkept⟩ : Planting bs f o c (c.planted bs f))
  show (⟨memoryReadWord (c.mem.planted bs f) address value, _, [Event.memory _ _ _ _ _
    (memoryReadWord (c.mem.planted bs f) address value).2]⟩ : Outcome _ _ _) = _
  rw [hread]
  rfl

theorem armWriteByte_blind (address : BitVec 32) (value : BitVec 8) :
    Blind (Planting bs f o) (· = ·) (Event.Spares bs) (armWriteByte address value) := by
  intro c c' h hevents
  have hspares : ∀ i ∈ covered address 1, ¬ Marked bs i := List.forall_mem_singleton.mp hevents
  rw [covered_one, List.forall_mem_singleton] at hspares
  have hset := h.set hspares value
  obtain ⟨rfl, -⟩ := h
  exact .ofEq rfl hset

theorem memoryWriteWord_result (mem : Memory) (address value : BitVec 32) :
    (memoryWriteWord mem address value).1 = 0 := by
  rw [memoryWriteWord]
  split
  · rfl
  · rfl

theorem armWriteWord_blind (address value : BitVec 32) :
    Blind (Planting bs f o) (· = ·) (Event.Spares bs) (armWriteWord address value) := by
  intro c c' h hevents
  have hspares : ∀ i ∈ covered address 4, ¬ Marked bs i := List.forall_mem_singleton.mp hevents
  have hwritten := h.writeWord hspares value
  obtain ⟨rfl, -⟩ := h
  refine .ofEq ?_ hwritten
  show (⟨(memoryWriteWord (c.mem.planted bs f) address value).1, _, _⟩ : Outcome _ _ _)
    = ⟨(memoryWriteWord c.mem address value).1, _, _⟩
  rw [memoryWriteWord_result, memoryWriteWord_result]
  rfl

theorem armFetch_blind (value : BitVec 32) :
    Blind (Planting bs f o) (· = ·) (Event.Spares bs) (armFetch value) := by
  intro c c' h hevents
  obtain ⟨rfl, hkept⟩ := h
  -- the events are the read of the pc, the read of the word and the write of the pc
  have hspares : ∀ i ∈ covered c.fetchAddress 4, ¬ Marked bs i :=
    (List.forall_mem_cons.mp (List.forall_mem_cons.mp hevents).2).1
  have hread := memoryReadWord_planted f c.mem hspares value
  refine .ofEq ?_ (⟨rfl, hkept⟩ : Planting bs f o c.fetched (c.fetched.planted bs f))
  show (⟨memoryReadWord (c.mem.planted bs f) c.fetchAddress value, _, [_, Event.memory _ _ _ _ _
    (memoryReadWord (c.mem.planted bs f) c.fetchAddress value).2, _]⟩ : Outcome _ _ _) = _
  rw [hread]
  rfl

theorem armException_blind (exception : BitVec 8) :
    Blind (Planting bs f o) (· = ·) (Event.Spares bs) (armException exception) :=
  (Blind.emit rfl).bind fun _ => (sequential_blind _ _).ite
    ((armWriteCpsr_blind _).bind fun _ => armWriteUsrRegister_blind 15 0) (Blind.pure ())

/-- Every access is blind to planted words that it spares. -/
theorem blind_accesses (bs : List (BitVec 32)) (f o : Nat → BitVec 8) :
    AccessProperty fun {_} (m : ArmM _) => Blind (Planting bs f o) (· = ·) (Event.Spares bs) m :=
  { sequential_blind (Planting bs f o) (Event.Spares bs) with
    readRegister := armReadRegister_blind
    readCpsr := armReadCpsr_blind
    writeRegister := armWriteRegister_blind
    fetch := armFetch_blind
    readByte := armReadByte_blind
    readWord := armReadWord_blind
    writeByte := armWriteByte_blind
    writeWord := armWriteWord_blind
    exception := armException_blind }

end

/-! ## Runs -/

section

variable {bs : List (BitVec 32)} {f o : Nat → BitVec 8} {h : Host} {us : Nat → Locals}
  {c c' : ArmCore} {n : Nat}

/-- The first `n` steps of the program spare the words at `bs`. -/
def SparesFor (bs : List (BitVec 32)) (h : Host) (us : Nat → Locals) (c : ArmCore) (n : Nat) :
    Prop := ∀ i < n, ∀ e ∈ (armStep h (us i) (c.after h us i)).events, e.Spares bs

instance : Decidable (SparesFor bs h us c n) :=
  inferInstanceAs (Decidable (∀ i < n, ∀ e ∈ _, _))

/-- **A program that spares the planted words runs as if they were not there.** -/
theorem planting_after (hspares : SparesFor bs h us c n) (hc : Planting bs f o c c') :
    Planting bs f o (c.after h us n) (c'.after h us n) := by
  induction n with
  | zero => exact hc
  | succ n ih =>
      have hbefore := ih fun i hi => hspares i (Nat.lt_succ_of_lt hi)
      exact ((blind_accesses bs f o).armStep h (us n) _ _ hbefore
        (hspares n (Nat.lt_succ_self n))).state

/-- A step fetches the word at the pc. -/
theorem fetchEvent_mem (h : Host) (u : Locals) (c : ArmCore) :
    fetchEvent u c ∈ (armStep h u c).events := by
  have hmem : fetchEvent u c ∈ (armStep h u c).events.filter visible := by
    rw [(armStep_runs h u c).events]
    exact List.mem_cons_self
  exact (List.mem_filter.mp hmem).1

end

end Armator
