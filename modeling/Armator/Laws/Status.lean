import Armator.Laws.Interleaving
import Armator.Laws.Replay
import Armator.Laws.TraceFile
import Armator.Laws.Transfer
import Armator.System.Invariants

set_option autoImplicit false

/-! # What no session changes

However the program, a debugger and interrupts work together, the memory keeps its size and its
byte order, and the SPSR is never written. The CPSR is written by RESET alone, unless the debugger
sends the registers: no program changes the mode or a flag (`status_kept`). This is so as long as
nothing is stored behind the end of the memory or of `gdb->packet`, which the simulator does not
check: what lies there may be the very structures these are kept in.
-/

namespace Armator

open Logged CString Critical LastWrite

/-! ## Stores inside the memory -/

/-- The program stores below `size`. -/
def Event.StoresInside (size : Nat) : Event → Prop
  | .memory _ .write n _ address _ => address.toNat + n ≤ size
  | _ => True

/-- A download that `X` accepts ends below `size`. -/
def DownloadInside (size : Nat) (u : GdbLocals) (data : List Byte) : Prop :=
  let (address, n) := givenRange u data
  address.toNat < size → address.toNat + n.toNat ≤ size

section

variable {t : Traced} {i : Nat}

/-- A traced store inside the memory, and every other event, leaves what lies behind it. -/
theorem Traced.apply_behind {e : Event} (he : e.StoresInside t.mem.size) (hi : t.mem.size ≤ i) :
    (t.apply e).mem.size = t.mem.size ∧ (t.apply e).mem.address i = t.mem.address i := by
  cases e with
  | memory cycle type n cause address value =>
      cases type with
      | read => exact ⟨rfl, rfl⟩
      | write =>
          refine ⟨rfl, applyUpdates_of_forall_ne (fun u hu heq => ?_) t.mem.address⟩
          -- the cells of the store are below the size
          obtain ⟨hcell, -⟩ := List.of_mem_zip hu
          have hinside : t.mem.Inside address n := he
          have hlt := hinside.covered_lt hcell
          omega
  | register cycle type reg mode value =>
      cases type with
      | read => exact ⟨rfl, rfl⟩
      | write =>
          unfold Traced.apply
          dsimp only
          split
          · exact ⟨rfl, rfl⟩
          · exact ⟨rfl, rfl⟩
  | exception => exact ⟨rfl, rfl⟩

theorem replay_behind {es : List Event} (hes : ∀ e ∈ es, e.StoresInside t.mem.size)
    (hi : t.mem.size ≤ i) : (tracing.replay es t).mem.address i = t.mem.address i := by
  induction es generalizing t with
  | nil => rfl
  | cons e es ih =>
      obtain ⟨he, hrest⟩ := List.forall_mem_cons.mp hes
      obtain ⟨hsize, hcell⟩ := Traced.apply_behind he hi
      have hsize : (tracing.apply t e).mem.size = t.mem.size := hsize
      rw [Reading.replay_cons, ih (by rw [hsize]; exact hrest) (by rw [hsize]; exact hi)]
      exact hcell

/-- The trace has all that a step stores. -/
theorem armStep_behind (h : Host) (u : Locals) (c : ArmCore)
    (hes : ∀ e ∈ (armStep h u c).events, e.StoresInside c.mem.size) (hi : c.mem.size ≤ i) :
    (armStep h u c).state.mem.address i = c.mem.address i := by
  have hreplay := (traces_accesses.armStep h u c).replay
  calc (armStep h u c).state.mem.address i
      = (tracing.replay (armStep h u c).events c.traced).mem.address i := by
        rw [hreplay]
        rfl
    _ = c.mem.address i := replay_behind hes hi

end

/-! ## What is kept -/

/-- The size and the byte order of the memory, what lies behind it, and the SPSR. -/
structure SameShape (c₀ c : ArmCore) : Prop where
  size : c.mem.size = c₀.mem.size
  isBigEndian : c.mem.isBigEndian = c₀.mem.isBigEndian
  behind : ∀ i, c₀.mem.size ≤ i → c.mem.address i = c₀.mem.address i
  spsr : c.reg.rData 17 = c₀.reg.rData 17

section

variable {c₀ c c' c'' : ArmCore}

theorem SameShape.refl (c : ArmCore) : SameShape c c := ⟨rfl, rfl, fun _ _ => rfl, rfl⟩

theorem SameShape.trans (h : SameShape c c') (h' : SameShape c' c'') : SameShape c c'' where
  size := h'.size.trans h.size
  isBigEndian := h'.isBigEndian.trans h.isBigEndian
  behind i hi := (h'.behind i (by rw [h.size]; exact hi)).trans (h.behind i hi)
  spsr := h'.spsr.trans h.spsr

theorem sameShape_setReg (c : ArmCore) {r : Nat} (h : r ≤ 16) (value : BitVec 32) :
    SameShape c (c.setReg r value) :=
  ⟨rfl, rfl, fun _ _ => rfl, c.setReg_of_ne (by omega) value⟩

theorem sameShape_step (h : Host) (u : Locals) (c : ArmCore)
    (hes : ∀ e ∈ (armStep h u c).events, e.StoresInside c.mem.size) :
    SameShape c (armStep h u c).state where
  size := by rw [armStep_state, stepState_size]
  isBigEndian := by rw [armStep_state, stepState_isBigEndian]
  behind _ hi := armStep_behind h u c hes hi
  spsr := by rw [armStep_state, stepState_status (by decide)]

theorem contents_length (data : List Byte) (n o : Nat) : (contents data n o).length = n := by
  induction n generalizing o with
  | zero => rfl
  | succ n ih => rw [contents, List.length_cons, ih]

/-- `X` stores inside the memory, or not at all. -/
theorem sameShape_download {u : GdbLocals} {data : List Byte} {g : Gdb}
    (hinside : DownloadInside g.mem.size u data) :
    SameShape g.arm (writeMemoryBinary u data g).state.arm := by
  rcases writeMemoryBinary_arm u data g with hstate | ⟨haddress, o, hstate⟩
  · rw [hstate]
    exact .refl g.arm
  · rw [hstate]
    have hrange : g.mem.Inside (givenRange u data).1 (givenRange u data).2.toNat :=
      hinside haddress
    refine ⟨Memory.stored_size, Memory.stored_isBigEndian, fun i hi => ?_, rfl⟩
    refine Memory.stored_frame fun hcell => ?_
    rw [contents_length] at hcell
    exact absurd hi (Nat.not_le.mpr (hrange.covered_lt hcell))

/-- In the user mode the pc is written, in another mode nothing. -/
theorem armWriteUsrRegister_state (value : BitVec 32) (c : ArmCore) :
    (armWriteUsrRegister 15 value c).state = c.setReg 15 value ∨
      (armWriteUsrRegister 15 value c).state = c := by
  show { c with reg := writeUsrRegister c.reg 15 value } = _ ∨
    { c with reg := writeUsrRegister c.reg 15 value } = c
  unfold writeUsrRegister
  split
  · exact .inl rfl
  · exact .inr rfl

/-- The registers that a command of the debugger may write. -/
theorem mayDo_register {command : Command} {r : Nat} {value : BitVec 32}
    (h : command.mayDo (.register r value) = true) :
    r ≤ 16 ∧ (command ≠ .writeGeneralRegisters → r < 16) := by
  cases command with
  | writeGeneralRegisters => exact ⟨of_decide_eq_true h, fun hne => absurd rfl hne⟩
  | writeRegister =>
      have hr : r < 16 := of_decide_eq_true h
      exact ⟨Nat.le_of_lt hr, fun _ => hr⟩
  | _ => cases h

theorem preserved_shape (h : Host) (c₀ : ArmCore) :
    Preserved h (Event.StoresInside c₀.mem.size)
      (fun command u data => command = .writeMemoryBinary → DownloadInside c₀.mem.size u data)
      (SameShape c₀) where
  step u c hes hc := hc.trans (sameShape_step h u c (by rw [hc.size]; exact hes))
  reset c hc := hc.trans (sameShape_setReg c (Nat.le_refl 16) _)
  pc c hc := by
    rcases armWriteUsrRegister_state 0 c with hstate | hstate
    · rw [hstate]
      exact hc.trans (sameShape_setReg c (by decide) 0)
    · rw [hstate]
      exact hc
  register command u data r value c _ hmay hc :=
    hc.trans (sameShape_setReg c (mayDo_register hmay).1 value)
  download u data g hallowed hg := by
    refine hg.trans (sameShape_download ?_)
    have hsize : g.mem.size = c₀.mem.size := hg.size
    rw [hsize]
    exact hallowed rfl

/-- Steps never write the flags back, and `P` knows no status register. -/
theorem preserved_cpsr (h : Host) (value : BitVec 32) :
    Preserved h (fun _ => True) (fun command _ _ => command ≠ .writeGeneralRegisters)
      fun c => c.cpsr = value ∨ c.cpsr = 0x1d3 where
  step u c _ hc := by
    rw [armStep_state, stepState_cpsr]
    exact hc
  reset c _ := .inr (c.setReg_same 16 0x1d3)
  pc c hc := by
    have hcpsr : (c.setReg 15 0).cpsr = c.cpsr := c.setReg_of_ne (by decide) 0
    rcases armWriteUsrRegister_state 0 c with hstate | hstate
    · rw [hstate, hcpsr]
      exact hc
    · rw [hstate]
      exact hc
  register command u data r value c hcommand hmay hc := by
    have hr := (mayDo_register hmay).2 hcommand
    have hcpsr : (c.setReg r value).cpsr = c.cpsr := c.setReg_of_ne (by omega) value
    rw [hcpsr]
    exact hc
  download u data g _ hg := by
    rcases writeMemoryBinary_arm u data g with hstate | ⟨-, o, hstate⟩
    · rw [hstate]
      exact hg
    · rw [hstate]
      exact hg

end

/-! ## The reply buffer -/

section

variable {cfg : GdbConfig} {g : Gdb} {input : List Arrival} {connections : List (List (BitVec 8))}
  {items : List Item} {q : Quiescent Listener Shared Listener.State}

theorem storesInside_liftArm {α : Type} (m : ArmM α) : StoresInside (liftArm m) := by
  intro g k n hmem
  rw [liftArm_eq] at hmem
  obtain ⟨e, he⟩ := List.mem_map.mp hmem
  cases he.2

theorem storesInside_performAll (hitems : ∀ a ∈ items.filterMap Item.token?, a.Fits) (len : Nat) :
    StoresInside (performAll cfg items len) := by
  induction items generalizing len with
  | nil => exact compositional_storesInside.pure len
  | cons i items ih =>
      cases i with
      | token a =>
          obtain ⟨ha, hrest⟩ := List.forall_mem_cons.mp hitems
          exact compositional_storesInside.bind
            (scannerProperty_storesInside.act cfg (ha.storesInside cfg) len) (ih hrest)
      | exception irq =>
          have hraise : StoresInside (Item.perform cfg len (.exception irq)) :=
            compositional_storesInside.bind (storesInside_liftArm _)
              fun _ => compositional_storesInside.pure len
          exact compositional_storesInside.bind hraise (ih hitems)

/-- The tokens that were acted upon fit as those of the input do. -/
theorem SameTokens.fits {done tokens : List Arrival} (h : SameTokens done tokens)
    (hdone : ∀ a ∈ done, a.Fits) : ∀ a ∈ tokens, a.Fits := by
  induction h with
  | nil => exact hdone
  | cons hhead _ ih =>
      obtain ⟨n, rfl⟩ := hhead
      obtain ⟨hfirst, hrest⟩ := List.forall_mem_cons.mp hdone
      exact List.forall_mem_cons.mpr ⟨hfirst, ih hrest⟩

/-- What is explained by requests for short dumps was stored inside the buffer. -/
theorem Explained.storesInside (h : Explained cfg g input connections items q)
    (hfits : ∀ a ∈ input, a.Fits) : StoresInside (performAll cfg items 0) := by
  obtain ⟨⟨len, es, -, -, hbetween⟩, -⟩ := h
  obtain ⟨done, hdone, htokens⟩ := hbetween.tokens_prefix
  exact storesInside_performAll (htokens.fits fun a ha => hfits a (hdone.subset ha)) 0

end

/-! ## The law -/

/-- **The status of the processor.** As long as the stores of the program and the downloads of the
debugger stay inside the memory, and no dump is longer than the reply buffer, in every state of
every session the memory has the size and the byte order it began with, what lies behind it is
unchanged, and the SPSR has its value. Unless the debugger sends `G`, the CPSR is what it was or
the one RESET writes. Whenever the lock is free, the replies so far were stored inside the
buffer. -/
theorem status_kept (cfg : GdbConfig) (g : Gdb) (input : List Arrival)
    (connections : List (List (BitVec 8))) (c : Simulator)
    (hruns : Reaches (listeners cfg) (Simulator.start g input connections) c)
    (hstores : ∀ e, .arm e ∈ c.state.trace → e.StoresInside g.mem.size)
    (hdownloads : ∀ a ∈ input, a.Permitted fun command u data =>
      command = .writeMemoryBinary → DownloadInside g.mem.size u data)
    (hdumps : ∀ a ∈ input, a.Fits) :
    SameShape g.arm c.state.core ∧
      ((∀ a ∈ input, a.Permitted fun command _ _ => command ≠ .writeGeneralRegisters) →
        c.state.core.cpsr = g.arm.cpsr ∨ c.state.core.cpsr = 0x1d3) ∧
      (c.owner = none → ∃ items, Explained cfg g input connections items c.toQuiescent ∧
        ∀ k n, .store k n ∈ (performAll cfg items 0 g).events → k + n ≤ MAX_PACKET_SIZE) := by
  refine ⟨?_, fun hinput => ?_, fun hfree => ?_⟩
  · exact reaches_preserved (preserved_shape cfg.host g.arm) hruns hstores hdownloads
      (.refl g.arm)
  · exact reaches_preserved (preserved_cpsr cfg.host g.arm.cpsr) hruns (fun _ _ => trivial) hinput
      (.inl rfl)
  · obtain ⟨items, hexplained⟩ := reaches_explained hruns hfree
    exact ⟨items, hexplained, hexplained.storesInside hdumps g⟩

/-- After a RESET that is raised before a step. -/
theorem status_kept_reset : ∃ c : Simulator,
    Reaches (listeners littleEndian)
        (Simulator.start movGdb [stepArrival ⟨0, 0, 0, 0, 0, 0⟩] [[1]]) c ∧
      SameShape movGdb.arm c.state.core ∧
      (c.state.core.cpsr = movGdb.arm.cpsr ∨ c.state.core.cpsr = 0x1d3) ∧
      ∃ items, Explained littleEndian movGdb [stepArrival ⟨0, 0, 0, 0, 0, 0⟩] [[1]] items
          c.toQuiescent ∧
        ∀ k n, .store k n ∈ (performAll littleEndian items 0 movGdb).events →
          k + n ≤ MAX_PACKET_SIZE := by
  have hstart : Reaches (listeners littleEndian)
      (Simulator.start movGdb [stepArrival ⟨0, 0, 0, 0, 0, 0⟩] [[1]]) _ :=
    Relation.ReflTransGen.refl
  have hread := hstart.tail (.own Listener.irq .read)
  have hlock := hread.tail (.lock Listener.irq rfl .lock)
  have hreset := hlock.tail (.shared Listener.irq rfl (.reset rfl))
  have hpc := hreset.tail (.shared Listener.irq rfl .pc)
  have hunlock := hpc.tail (.unlock Listener.irq rfl .unlock)
  have hcommand {allowed : Command → GdbLocals → List Byte → Prop}
      (hallowed : ∀ u data, allowed .step u data) :
      ∀ a ∈ [stepArrival ⟨0, 0, 0, 0, 0, 0⟩], a.Permitted allowed := by
    refine List.forall_mem_singleton.mpr fun command data hcommand => ?_
    rw [stepArrival_command] at hcommand
    cases hcommand
    exact hallowed _ _
  have hfits : (stepArrival ⟨0, 0, 0, 0, 0, 0⟩).Fits :=
    ⟨[chr 's'], hex2 (checksum [chr 's']), rfl, ⟨by decide, isHex_hex2 _, rfl⟩,
      fun _ hm => absurd hm (by decide)⟩
  have hkept := status_kept littleEndian movGdb _ _ _ hunlock ?_
    (hcommand fun _ _ heq => Command.noConfusion heq) (List.forall_mem_singleton.mpr hfits)
  · exact ⟨_, hunlock, hkept.1, hkept.2.1 (hcommand fun _ _ => Command.noConfusion),
      hkept.2.2 rfl⟩
  · -- RESET writes registers only
    intro e he
    have hevents : .arm e ∈ [GdbEvent.arm (.exception 1), .arm (.register 0 .write CPSR 0 _),
      .arm (.register 0 .write 15 USR 0)] := he
    simp only [List.mem_cons, GdbEvent.arm.injEq, List.not_mem_nil, or_false] at hevents
    rcases hevents with rfl | rfl | rfl <;> trivial

end Armator
