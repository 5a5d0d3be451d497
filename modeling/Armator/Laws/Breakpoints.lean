import Armator.Semantics.Planting
import Armator.System.Link

set_option autoImplicit false

/-! # Breakpoints

A debugger replaces words of the program by breakpoints, continues, and puts the words back when
the program has stopped. The program does not notice: it is where it would be without them
(`breakpoints_transparent`).
-/

namespace Armator

open Logged CString

/-! ## Requests -/

/-- The four bytes that `f` holds from `b` on. -/
def bytesFrom (f : Nat → BitVec 8) (b : BitVec 32) : List (BitVec 8) :=
  (List.range' b.toNat 4).map f

/-- The words at `bs` are downloaded. -/
def downloads (bs : List (BitVec 32)) (f : Nat → BitVec 8) : List Request :=
  bs.map fun b => .download b (bytesFrom f b)

/-- Breakpoints with the bytes `code` are put in, the program is continued, and what `f` holds is
put back. -/
def breakAndRestore (bs : List (BitVec 32)) (code : List (BitVec 8)) (f : Nat → BitVec 8) :
    List Request :=
  bs.map (.download · code) ++ .cont :: downloads bs f

/-- The word that `code` is in the byte order of the memory. -/
def Memory.codeWord (mem : Memory) (code : List (BitVec 8)) : BitVec 32 :=
  BitVec.ofNat 32 (join (inOrder (mem.isBigEndian ≠ 0) code))

section

variable {cfg : GdbConfig} {bs : List (BitVec 32)} {f o : Nat → BitVec 8} {mem : Memory}
  {c : ArmCore}

/-! ## Downloads -/

theorem Memory.planted_nil : mem.planted [] f = mem := by
  refine eq_of_cells rfl rfl fun i => planted_of_not_marked ?_
  rintro ⟨b, hb, -⟩
  exact List.not_mem_nil hb

theorem marked_cons {b : BitVec 32} {i : Nat} :
    Marked (b :: bs) i ↔ (b.toNat ≤ i ∧ i < b.toNat + 4) ∨ Marked bs i :=
  List.exists_mem_cons_iff _ _ _

theorem bytesFrom_length (f : Nat → BitVec 8) (b : BitVec 32) : (bytesFrom f b).length = 4 := by
  rw [bytesFrom, List.length_map, List.length_range']

theorem bytesFrom_getD {b : BitVec 32} {k : Nat} (hk : k < 4) :
    (bytesFrom f b).getD k 0 = f (b.toNat + k) := by
  rw [bytesFrom, List.getD_eq_getElem?_getD, List.getElem?_map, List.getElem?_range' hk,
    Nat.one_mul]
  rfl

/-- The word at `b` first, and then the others. -/
theorem Memory.patched_bytesFrom (b : BitVec 32) :
    (mem.patched b (bytesFrom f b)).planted bs f = mem.planted (b :: bs) f := by
  have hlength := bytesFrom_length f b
  refine eq_of_cells rfl rfl fun i => ?_
  by_cases hmarked : Marked bs i
  · rw [planted_of_marked hmarked, planted_of_marked (marked_cons.mpr (.inr hmarked))]
  · rw [planted_of_not_marked hmarked]
    by_cases hi : b.toNat ≤ i ∧ i < b.toNat + 4
    · rw [planted_of_marked (marked_cons.mpr (.inl hi)), patched_inside hi.1 (by omega),
        bytesFrom_getD (by omega), Nat.add_sub_cancel' hi.1]
    · have hnot : ¬ Marked (b :: bs) i := fun h => (marked_cons.mp h).elim hi hmarked
      rw [planted_of_not_marked hnot, patched_outside (by omega)]

/-- Downloads of words plant them. -/
theorem served_downloads (cfg : GdbConfig) (f : Nat → BitVec 8) {us : List GdbLocals} {t : Target}
    (hus : us.length = bs.length)
    (hbs : ∀ b ∈ bs, t.arm.mem.Inside b 4 ∧ b.toNat + 4 ≤ 2 ^ 32) :
    Served cfg (downloads bs f) us t (List.replicate bs.length (text ['O', 'K']))
      { t with arm := t.arm.planted bs f } := by
  induction bs generalizing us t with
  | nil =>
      rw [List.length_eq_zero_iff.mp hus]
      have hnil : t.arm.planted [] f = t.arm :=
        congrArg (ArmCore.mk t.arm.cycleCount t.arm.reg) Memory.planted_nil
      rw [hnil]
      exact .nil t
  | cons b bs ih =>
      obtain ⟨u, us, rfl⟩ := List.exists_cons_of_length_eq_add_one hus
      obtain ⟨⟨hinside, hfit⟩, hrest⟩ := List.forall_mem_cons.mp hbs
      have hlength := bytesFrom_length f b
      have hfirst : Serves cfg u (.download b (bytesFrom f b)) t (text ['O', 'K'])
          { t with arm := { t.arm with mem := t.arm.mem.patched b (bytesFrom f b) } } :=
        .download t (List.ne_nil_of_length_pos (by omega)) (by rw [hlength]; exact hinside)
          (by rw [hlength]; exact hfit)
      refine .cons hfirst ?_
      have hplanted : ArmCore.planted { t.arm with mem := t.arm.mem.patched b (bytesFrom f b) } bs f
          = t.arm.planted (b :: bs) f :=
        congrArg (ArmCore.mk t.arm.cycleCount t.arm.reg) (Memory.patched_bytesFrom b)
      rw [← hplanted]
      exact ih (Nat.succ.inj hus) hrest

/-- What is put back is what was there. -/
theorem Planting.restored {c' : ArmCore} (h : Planting bs f o c c') : c'.planted bs o = c := by
  obtain ⟨rfl, hkept⟩ := h
  have hmem : (c.mem.planted bs f).planted bs o = c.mem := by
    refine Memory.eq_of_cells rfl rfl fun i => ?_
    by_cases hmarked : Marked bs i
    · rw [Memory.planted_of_marked hmarked, hkept i hmarked]
    · rw [Memory.planted_of_not_marked hmarked, Memory.planted_of_not_marked hmarked]
  exact congrArg (ArmCore.mk c.cycleCount c.reg) hmem

/-! ## The program with breakpoints -/

section

variable {c' : ArmCore} {h : Host} {u : Locals}

theorem Planting.fetchAddress (hc : Planting bs f o c c') : c'.fetchAddress = c.fetchAddress := by
  rw [hc.eq]
  rfl

theorem Planting.inBounds (hc : Planting bs f o c c') : c'.InBounds ↔ c.InBounds := by
  rw [hc.eq]
  rfl

/-- Beside the breakpoints, the word at the pc is the one of the program. -/
theorem Planting.goes (hc : Planting bs f o c c')
    (hspares : ∀ e ∈ (armStep h u c).events, e.Spares bs) (hgoes : c.Goes) : c'.Goes := by
  have hfetch : ∀ i ∈ covered c.fetchAddress 4, ¬ Marked bs i :=
    hspares _ (fetchEvent_mem h u c)
  have hword : c'.word = c.word := by
    rw [ArmCore.word, hc.fetchAddress, hc.eq]
    exact congrArg (BitVec.ofNat 32) (Memory.planted_joined hfetch)
  refine ⟨hc.inBounds.mpr hgoes.1, ?_⟩
  rw [hword]
  exact hgoes.2

/-- At one of them, the word at the pc is a breakpoint. -/
theorem Planting.stops {code : List (BitVec 8)} (hc : Planting bs f o c c')
    (hcode : ∀ b ∈ bs, bytesFrom f b = code) (hbreak : IsBreakpoint (c.mem.codeWord code))
    (hfit : c.fetchAddress.toNat + 4 ≤ 2 ^ 32) (hin : c.InBounds) (hpc : c.fetchAddress ∈ bs) :
    c'.Stops := by
  have hcells : (covered c.fetchAddress 4).map (c.mem.planted bs f).address = code := by
    rw [← hcode _ hpc, bytesFrom, covered, List.map_map, List.range'_eq_map_range, List.map_map]
    refine List.map_congr_left fun k hk => ?_
    have hlt : k < 4 := List.mem_range.mp hk
    show (c.mem.planted bs f).address (c.fetchAddress + BitVec.ofNat 32 k).toNat
      = f (c.fetchAddress.toNat + k)
    rw [wrapped_toNat _ (by omega), if_pos (by omega)]
    exact Memory.planted_of_marked ⟨_, hpc, by omega, by omega⟩
  have hword : c'.word = c.mem.codeWord code := by
    rw [ArmCore.word, hc.fetchAddress, hc.eq, Memory.codeWord, ← hcells]
    rfl
  refine ⟨hc.inBounds.mpr hin, ?_⟩
  rw [hword]
  exact hbreak

end

/-- At aligned addresses, one pattern is all there is to plant. -/
theorem bytesFrom_code {code : List (BitVec 8)} (hcode : code.length = 4) {b : BitVec 32}
    (hb : b.toNat % 4 = 0) : bytesFrom (fun i => code.getD (i % 4) 0) b = code := by
  have hlength := bytesFrom_length (fun i => code.getD (i % 4) 0) b
  refine List.ext_getElem (by omega) fun k hk hk' => ?_
  have hindex : (b.toNat + k) % 4 = k := by omega
  have hbyte := bytesFrom_getD (f := fun i => code.getD (i % 4) 0) (b := b) (k := k) (by omega)
  rw [hindex, List.getD_eq_getElem?_getD, List.getElem?_eq_getElem hk,
    List.getD_eq_getElem?_getD, List.getElem?_eq_getElem hk'] at hbyte
  exact hbyte

end

/-! ## The law -/

section

variable {cfg : GdbConfig} {bs : List (BitVec 32)} {code : List (BitVec 8)} {t : Target}
  {u : GdbLocals} {n : Nat}

/-- The requests, on the target. -/
theorem served_breakAndRestore (cfg : GdbConfig) (t : Target) {us us' : List GdbLocals}
    (hus : us.length = bs.length) (hus' : us'.length = bs.length)
    (hbs : ∀ b ∈ bs, b.toNat % 4 = 0 ∧ t.arm.mem.Inside b 4) (hcode : code.length = 4)
    (hbreak : IsBreakpoint (t.arm.mem.codeWord code))
    (hgo : ∀ i < n, (t.arm.after cfg.host u.steps i).Goes)
    (hspares : SparesFor bs cfg.host u.steps t.arm n)
    (hpc : (t.arm.after cfg.host u.steps n).fetchAddress ∈ bs) (hfuel : n < u.fuel) :
    Served cfg (breakAndRestore bs code t.arm.mem.address) (us ++ u :: us') t
      (List.replicate bs.length (text ['O', 'K']) ++ stopReason (exceptionAfter t.exception n) ::
        List.replicate bs.length (text ['O', 'K']))
      ⟨t.arm.after cfg.host u.steps n, exceptionAfter t.exception n⟩ := by
  obtain ⟨f, hf⟩ : ∃ f, ∀ b ∈ bs, bytesFrom f b = code :=
    ⟨_, fun b hb => bytesFrom_code hcode (hbs b hb).1⟩
  have hfit : ∀ b ∈ bs, b.toNat + 4 ≤ 2 ^ 32 := by
    intro b hb
    have haligned := (hbs b hb).1
    have hlt := b.isLt
    omega
  have hdownloads : bs.map (.download · code) = downloads bs f :=
    List.map_congr_left fun b hb => congrArg (Request.download b) (hf b hb).symm
  have hplanting : Planting bs f t.arm.mem.address t.arm (t.arm.planted bs f) :=
    ⟨rfl, fun _ _ => rfl⟩
  have hafter (m : Nat) (hm : m ≤ n) : Planting bs f t.arm.mem.address
      (t.arm.after cfg.host u.steps m) ((t.arm.planted bs f).after cfg.host u.steps m) :=
    planting_after (fun i hi => hspares i (by omega)) hplanting
  obtain ⟨hsize, horder⟩ := t.arm.after_memory cfg.host u.steps n
  have hstops : ((t.arm.planted bs f).after cfg.host u.steps n).Stops := by
    refine (hafter n (Nat.le_refl n)).stops hf ?_ (hfit _ hpc) ?_ hpc
    · rw [Memory.codeWord, horder]
      exact hbreak
    · show (t.arm.after cfg.host u.steps n).fetchAddress.toNat + 4 ≤ _
      rw [hsize]
      exact (hbs _ hpc).2
  have hcont : Serves cfg u .cont { t with arm := t.arm.planted bs f }
      (stopReason (exceptionAfter t.exception n))
      ⟨(t.arm.planted bs f).after cfg.host u.steps n, exceptionAfter t.exception n⟩ :=
    .cont _ (fun i hi => (hafter i (by omega)).goes (hspares i hi) (hgo i hi)) hstops hfuel
  let t' : Target := ⟨(t.arm.planted bs f).after cfg.host u.steps n, exceptionAfter t.exception n⟩
  have hrestore := @served_downloads bs cfg t.arm.mem.address us' t' hus' fun b hb => ⟨by
      show b.toNat + 4 ≤ ((t.arm.planted bs f).after cfg.host u.steps n).mem.size
      rw [((t.arm.planted bs f).after_memory cfg.host u.steps n).1]
      exact (hbs b hb).2, hfit b hb⟩
  rw [breakAndRestore, hdownloads]
  refine (served_downloads cfg f hus fun b hb => ⟨(hbs b hb).2, hfit b hb⟩).append (.cons hcont ?_)
  rw [← (hafter n (Nat.le_refl n)).restored]
  exact hrestore

end

/-- **Breakpoints are transparent.** A program that does not touch the words under the breakpoints
is, when it has stopped at one and they are taken out again, where it would be without them. -/
theorem breakpoints_transparent (cfg : GdbConfig) (xs : List Exchange) (arrivals : List Arrival)
    (g : Gdb) (bs : List (BitVec 32)) (code : List (BitVec 8)) (u : GdbLocals) (n : Nat)
    (hxs : List.Forall₂ (Exchange.Carries cfg) xs (breakAndRestore bs code g.arm.mem.address))
    (harrivals : arrivals.map Arrival.token = scannerTokens (xs.flatMap Exchange.bytes))
    (hu : (acceptedLocals arrivals)[bs.length]? = some u) (hfuel : n < u.fuel)
    (hbs : ∀ b ∈ bs, b.toNat % 4 = 0 ∧ g.arm.mem.Inside b 4) (hcode : code.length = 4)
    (hbreak : IsBreakpoint (g.arm.mem.codeWord code))
    (hgo : ∀ i < n, (g.arm.after cfg.host u.steps i).Goes)
    (hspares : SparesFor bs cfg.host u.steps g.arm n)
    (hpc : (g.arm.after cfg.host u.steps n).fetchAddress ∈ bs) :
    let o := yylex cfg arrivals g
    let t' : Target := ⟨g.arm.after cfg.host u.steps n, exceptionAfter g.targetException n⟩
    let oks := List.replicate bs.length (text ['O', 'K'])
    o.value = .ok () ∧ o.state.target = t' ∧
      sends o.events
        = (List.zipWith Exchange.answer xs (oks ++ stopReason t'.exception :: oks)).flatten := by
  intro o t' oks
  obtain ⟨hlt, hget⟩ := List.getElem?_eq_some_iff.mp hu
  have hsplit : acceptedLocals arrivals = (acceptedLocals arrivals).take bs.length ++
      u :: (acceptedLocals arrivals).drop (bs.length + 1) := by
    rw [← hget, List.getElem_cons_drop, List.take_append_drop]
  have hlength : (acceptedLocals arrivals).length = bs.length + (bs.length + 1) := by
    rw [acceptedLocals_length hxs (scannerTokens_session hxs ▸ harrivals), breakAndRestore,
      List.length_append, List.length_cons, downloads, List.length_map, List.length_map]
  have hfront : ((acceptedLocals arrivals).take bs.length).length = bs.length := by
    rw [List.length_take]
    omega
  have hrest : ((acceptedLocals arrivals).drop (bs.length + 1)).length = bs.length := by
    rw [List.length_drop]
    omega
  have hserved := served_breakAndRestore cfg g.target hfront hrest hbs hcode hbreak hgo hspares hpc
    hfuel
  rw [← hsplit] at hserved
  obtain ⟨g', es, -, hend, htarget, hsends⟩ := yylex_session hxs harrivals hserved
  refine ⟨hend.value, ?_, (sends_of_runs hend).trans hsends⟩
  rw [show o.state = g' from hend.state]
  exact htarget

def withFuel : GdbLocals := { zeroLocals with fuel := 2 }

/-- A breakpoint at 4, in a memory of zeros. -/
def breakAtFour : List Exchange :=
  let download (e : List Byte) := downloadRequest (text ['4']) (text ['4']) e
  [download [0xF0, 0x01, 0xF0, 0xE7], [chr 'c'], download [0, 0, 0, 0]].map Exchange.clean

theorem breakAtFour_carries : List.Forall₂ (Exchange.Carries littleEndian) breakAtFour
    (breakAndRestore [4] [0xF0, 0x01, 0xF0, 0xE7] (idleGdb 64).arm.mem.address) := by
  have hfour : Digits (text ['4']) 4 := ⟨by decide, by decide, by decide⟩
  have hplain {a b c d : Byte} (h : ∀ x ∈ [a, b, c, d], x ≠ 0x23 ∧ x ≠ 0x24 ∧ x ≠ 0x7d) :
      Escaped [a, b, c, d] [a, b, c, d] :=
    .plain (h a (by simp)) (.plain (h b (by simp)) (.plain (h c (by simp))
      (.plain (h d (by simp)) .nil)))
  refine .cons (Exchange.carries_clean (by decide) ?_)
    (.cons (Exchange.carries_clean (by decide) .cont)
      (.cons (Exchange.carries_clean (by decide) ?_) .nil))
  · exact .download hfour hfour rfl (hplain (by decide))
  · exact .download hfour hfour rfl (hplain (by decide))

theorem breakpoints_transparent_atFour :
    let arrivals : List Arrival :=
      (breakAtFour.flatMap Exchange.tokens).map fun t => ⟨t, withFuel, []⟩
    let o := yylex littleEndian arrivals (idleGdb 64)
    let t' : Target := ⟨(idleGdb 64).arm.after littleEndian.host withFuel.steps 1, 0⟩
    o.value = .ok () ∧ o.state.target = t' ∧
      sends o.events = (List.zipWith Exchange.answer breakAtFour
        [text ['O', 'K'], stopReason 0, text ['O', 'K']]).flatten :=
  breakpoints_transparent littleEndian breakAtFour _ (idleGdb 64) [4] [0xF0, 0x01, 0xF0, 0xE7]
    withFuel 1 breakAtFour_carries
    (by rw [scannerTokens_session breakAtFour_carries, List.map_map]; exact List.map_id _)
    rfl (by decide) (List.forall_mem_singleton.mpr (by decide)) rfl (by decide) (by decide)
    (by decide +kernel) (by decide)

end Armator
