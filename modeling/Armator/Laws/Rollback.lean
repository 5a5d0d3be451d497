import Armator.Semantics.Alike
import Armator.System.Link

set_option autoImplicit false

/-! # Going back

A debugger that has asked for the registers and the memory can put them back later. Whatever has
been asked for in between, the session goes on as it would have gone on at the time
(`rollback`).
-/

namespace Armator

open Logged CString

/-! ## Targets that cannot be told apart -/

section

variable {cfg : GdbConfig} {u : GdbLocals} {c c' : ArmCore} {t t' t₁ : Target} {r : Request}
  {p : List Byte}

theorem Alike.slotValue (h : Alike c c') (i : Nat) : slotValue c' i = slotValue c i := by
  rw [Armator.slotValue, Armator.slotValue, h.reg, h.reg]

theorem Alike.generalText (h : Alike c c') (cfg : GdbConfig) :
    generalText cfg c' = generalText cfg c := by
  have hcpsr : c'.cpsr = c.cpsr := h.reg 16
  have hslots : (fun i => wordText cfg (Armator.slotValue c' i))
      = fun i => wordText cfg (Armator.slotValue c i) :=
    funext fun i => congrArg (wordText cfg) (h.slotValue i)
  rw [generalText_eq_layout, generalText_eq_layout, hslots, hcpsr]

theorem ArmCore.regValue_withRegisters (c : ArmCore) (v : Nat → BitVec 32) (cpsr : BitVec 32)
    (r : Nat) :
    (c.withRegisters v cpsr).regValue r = if r = 15 then (v 15 + 4) &&& 0xFFFFFFFD
      else if r < 16 then v r else if r = 16 then cpsr else c.reg.rData r := by
  by_cases h15 : r = 15
  · subst h15
    rfl
  · rw [regValue, if_neg h15, if_neg h15]
    rfl

theorem Alike.withRegisters (h : Alike c c') (v : Nat → BitVec 32) (cpsr : BitVec 32) :
    Alike (c.withRegisters v cpsr) (c'.withRegisters v cpsr) := by
  refine ⟨h.mem, fun r => ?_⟩
  rw [ArmCore.regValue_withRegisters, ArmCore.regValue_withRegisters]
  by_cases h15 : r = 15
  · rw [if_pos h15, if_pos h15]
  · have hraw : c'.reg.rData r = c.reg.rData r := by
      have hreg := h.reg r
      rwa [ArmCore.regValue, ArmCore.regValue, if_neg h15, if_neg h15] at hreg
    rw [hraw]

theorem Alike.inBounds (h : Alike c c') : c'.InBounds ↔ c.InBounds := by
  rw [ArmCore.InBounds, ArmCore.InBounds, h.mem, h.fetchAddress]

theorem Alike.word (h : Alike c c') : c'.word = c.word := by
  rw [ArmCore.word, ArmCore.word, h.mem, h.fetchAddress]

theorem Alike.goes (h : Alike c c') (hgoes : c.Goes) : c'.Goes := by
  refine ⟨h.inBounds.mpr hgoes.1, ?_⟩
  rw [h.word]
  exact hgoes.2

theorem Alike.stops (h : Alike c c') (hstops : c.Stops) : c'.Stops := by
  refine ⟨h.inBounds.mpr hstops.1, ?_⟩
  rw [h.word]
  exact hstops.2

/-- The processors cannot be told apart, and both have stopped for the same reason. -/
structure Target.Alike (t t' : Target) : Prop where
  arm : Armator.Alike t.arm t'.arm
  exception : t'.exception = t.exception

/-- A request is answered alike. -/
theorem Serves.alike (h : Serves cfg u r t p t₁) (halike : t.Alike t') :
    ∃ t₁', Serves cfg u r t' p t₁' ∧ t₁.Alike t₁' := by
  obtain ⟨harm, hexception⟩ := halike
  have hmem := harm.mem
  cases h with
  | reason => exact ⟨t', by rw [← hexception]; exact .reason t', harm, hexception⟩
  | dump => exact ⟨t', by rw [← harm.generalText]; exact .dump t', harm, hexception⟩
  | restore _ v cpsr => exact ⟨_, .restore t' v cpsr, harm.withRegisters v cpsr, hexception⟩
  | read _ hr => exact ⟨t', by rw [← harm.slotValue]; exact .read t' hr, harm, hexception⟩
  | write _ hr v => exact ⟨_, .write t' hr v, harm.setReg _ v, hexception⟩
  | upload _ hn hinside hfit =>
      rw [← hmem] at hinside
      exact ⟨t', by rw [← hmem]; exact .upload t' hn hinside hfit, harm, hexception⟩
  | download _ hne hinside hfit =>
      rw [← hmem] at hinside
      refine ⟨_, .download t' hne hinside hfit, ?_, hexception⟩
      rw [hmem]
      exact harm.withMem _
  | refuse _ d houtside =>
      rw [← hmem] at houtside
      exact ⟨t', .refuse t' d houtside, harm, hexception⟩
  | step => exact ⟨_, .step t', alike_stepState cfg.host (u.steps 0) harm, rfl⟩
  | @cont _ n hgo hstop hfuel =>
      have hafter := alike_after cfg.host u.steps harm
      refine ⟨⟨t'.arm.after cfg.host u.steps n, exceptionAfter t'.exception n⟩, ?_, hafter n,
        congrArg (exceptionAfter · n) hexception⟩
      rw [← hexception]
      exact .cont t' (fun i hi => (hafter i).goes (hgo i hi)) ((hafter _).stops hstop) hfuel
  | query _ q => exact ⟨t', .query t' q, harm, hexception⟩
  | thread _ op => exact ⟨t', .thread t' op, harm, hexception⟩
  | unknown => exact ⟨t', .unknown t', harm, hexception⟩

theorem Served.alike {rs : List Request} {us : List GdbLocals} {ps : List (List Byte)}
    (h : Served cfg rs us t ps t₁) (halike : t.Alike t') :
    ∃ t₁', Served cfg rs us t' ps t₁' ∧ t₁.Alike t₁' := by
  induction h generalizing t' with
  | nil => exact ⟨t', .nil t', halike⟩
  | cons hfirst _ ih =>
      obtain ⟨t₂, hfirst', halike'⟩ := hfirst.alike halike
      obtain ⟨t₁', hrest', hend⟩ := ih halike'
      exact ⟨t₁', .cons hfirst' hrest', hend⟩

/-! ## What no request changes -/

/-- The size and the byte order of the memory, and the registers that no request names. -/
structure Kept (t t' : Target) : Prop where
  size : t'.arm.mem.size = t.arm.mem.size
  order : t'.arm.mem.isBigEndian = t.arm.mem.isBigEndian
  reg : ∀ i, 16 < i → t'.arm.reg.rData i = t.arm.reg.rData i
  exception : t.exception = 0 → t'.exception = 0

theorem Kept.refl (t : Target) : Kept t t := ⟨rfl, rfl, fun _ _ => rfl, id⟩

theorem Kept.trans {t₂ : Target} (h : Kept t t') (h' : Kept t' t₂) : Kept t t₂ :=
  ⟨h'.size.trans h.size, h'.order.trans h.order, fun i hi => (h'.reg i hi).trans (h.reg i hi),
    fun h₀ => h'.exception (h.exception h₀)⟩

theorem Serves.kept (h : Serves cfg u r t p t') : Kept t t' := by
  cases h with
  | restore _ v cpsr =>
      refine ⟨rfl, rfl, fun i hi => ?_, id⟩
      show (if i < 16 then v i else if i = 16 then cpsr else t.arm.reg.rData i) = _
      rw [if_neg (by omega), if_neg (by omega)]
  | @write _ i hr v =>
      have hlt : i.toNat < 16 := hr
      exact ⟨rfl, rfl, fun j hj => t.arm.setReg_of_ne (by omega) v, id⟩
  | download => exact ⟨rfl, rfl, fun _ _ => rfl, id⟩
  | step => exact ⟨stepState_size, stepState_isBigEndian, fun i hi => stepState_status (by omega),
      fun _ => rfl⟩
  | @cont _ n =>
      obtain ⟨hsize, horder⟩ := t.arm.after_memory cfg.host u.steps n
      refine ⟨hsize, horder, fun i hi => t.arm.after_status _ _ n (by omega), fun h₀ => ?_⟩
      show exceptionAfter t.exception n = 0
      rw [h₀, exceptionAfter]
      split <;> rfl
  | _ => exact .refl t

theorem Served.kept {rs : List Request} {us : List GdbLocals} {ps : List (List Byte)}
    (h : Served cfg rs us t ps t') : Kept t t' := by
  induction h with
  | nil t => exact .refl t
  | cons hfirst _ ih => exact hfirst.kept.trans ih

/-! ## Saving and restoring -/

/-- Asked for a request, the stub has answered; the other request puts back what it said. -/
inductive PutsBack (cfg : GdbConfig) : Request → List Byte → Request → Prop
  | registers {texts : Nat → List Byte} {v : Nat → BitVec 32} {unused cs : List Byte}
      {cpsr : BitVec 32} (htexts : ∀ i < 16, WordDigits cfg (texts i) (v i))
      (hcpsr : WordDigits cfg cs cpsr) (hunused : unused.length = (8 * 3 + 1) * 8) :
      PutsBack cfg .dump (layout texts unused cs) (.restore v cpsr)
  | memory {address n : BitVec 32} (d : List (BitVec 8)) :
      PutsBack cfg (.upload address n) (hexText d) (.download address d)

/-- `saves` were answered with `ps`; `restores` put everything back. -/
inductive Backup (cfg : GdbConfig) : List Request → List (List Byte) → List Request → Prop
  | nil : Backup cfg [] [] []
  | cons {r r' : Request} {p : List Byte} {saves restores : List Request} {ps : List (List Byte)}
      (hfirst : PutsBack cfg r p r') (hrest : Backup cfg saves ps restores) :
      Backup cfg (r :: saves) (p :: ps) (r' :: restores)

/-- The second request brings back what `c` holds of the first. -/
inductive Recovers (c : ArmCore) : Request → Request → Prop
  | registers {v : Nat → BitVec 32} (hv : ∀ i < 16, v i = slotValue c i) :
      Recovers c .dump (.restore v c.cpsr)
  | memory {address n : BitVec 32} (hinside : c.mem.Inside address n.toNat) :
      Recovers c (.upload address n) (.download address (c.mem.bytes address n.toNat))

/-- What a dump says. -/
theorem layout_values {texts : Nat → List Byte} {v : Nat → BitVec 32} {unused cs : List Byte}
    {cpsr : BitVec 32} (htexts : ∀ i < 16, WordDigits cfg (texts i) (v i))
    (hcpsr : WordDigits cfg cs cpsr) (hunused : unused.length = (8 * 3 + 1) * 8)
    (h : generalText cfg c = layout texts unused cs) :
    (∀ i < 16, v i = slotValue c i) ∧ cpsr = c.cpsr := by
  have hlayout := generalText_eq_layout cfg c
  rw [h] at hlayout
  have hlength : ∀ i < 16, (texts i).length = 8 := fun i hi => (htexts i hi).eight
  let texts' (i : Nat) : List Byte := wordText cfg (slotValue c i)
  have hlength' : ∀ i < 16, (texts' i).length = 8 := fun _ _ => wordText_length cfg _
  constructor
  · intro i hi
    obtain ⟨rest, hrest⟩ : ∃ rest, (layout texts unused cs ++ []).drop (8 * i) = texts i ++ rest :=
      layout_drop hlength hi
    obtain ⟨rest', hrest'⟩ : ∃ rest,
        (layout texts' unavailable (wordText cfg c.cpsr) ++ []).drop (8 * i) = texts' i ++ rest :=
      layout_drop hlength' hi
    rw [← hlayout] at hrest'
    rw [← (htexts i hi).readWord (fun _ => 0) hrest,
      (wordDigits_wordText cfg _).readWord (fun _ => 0) hrest']
  · have hrest : (layout texts unused cs ++ []).drop (8 * 41) = cs ++ [] :=
      layout_drop_cpsr hlength hunused
    have hrest' : (layout texts' unavailable (wordText cfg c.cpsr) ++ []).drop (8 * 41)
        = wordText cfg c.cpsr ++ [] := layout_drop_cpsr hlength' rfl
    rw [← hlayout] at hrest'
    rw [← hcpsr.readWord (fun _ => 0) hrest,
      (wordDigits_wordText cfg _).readWord (fun _ => 0) hrest']

theorem PutsBack.recovers {r' : Request} (h : PutsBack cfg r p r')
    (hserves : Serves cfg u r t p t') : t' = t ∧ Recovers t.arm r r' := by
  cases h with
  | registers htexts hcpsr hunused =>
      generalize hp : layout _ _ _ = p at hserves
      cases hserves with
      | dump =>
          obtain ⟨hv, rfl⟩ := layout_values htexts hcpsr hunused hp.symm
          exact ⟨rfl, .registers hv⟩
  | memory d =>
      generalize hp : hexText d = p at hserves
      cases hserves with
      | upload _ _ hinside =>
          cases hexText_injective hp
          exact ⟨rfl, .memory hinside⟩

/-- Saving changes nothing, and what was saved is recovered. -/
theorem Backup.recovers {saves restores : List Request} {us : List GdbLocals}
    {ps : List (List Byte)} (h : Backup cfg saves ps restores)
    (hserved : Served cfg saves us t ps t') :
    t' = t ∧ List.Forall₂ (Recovers t.arm) saves restores := by
  induction h generalizing us with
  | nil =>
      cases hserved
      exact ⟨rfl, .nil⟩
  | cons hfirst _ ih =>
      cases hserved with
      | cons hserves hrest =>
          obtain ⟨rfl, hrecovers⟩ := hfirst.recovers hserves
          obtain ⟨hend, hrecover⟩ := ih hrest
          exact ⟨hend, .cons hrecovers hrecover⟩

/-! ## Restoring -/

/-- The registers that are saved are read like those of `c`. -/
def RegistersLike (c c' : ArmCore) : Prop := ∀ i ≤ 16, c'.regValue i = c.regValue i

theorem registersLike_restored {v : Nat → BitVec 32} (hv : ∀ i < 16, v i = slotValue c i) :
    RegistersLike c (c'.withRegisters v c.cpsr) := by
  intro i hi
  rw [ArmCore.regValue_withRegisters]
  by_cases h15 : i = 15
  · subst h15
    rw [if_pos rfl, hv 15 (by decide), slotValue, if_pos rfl, BitVec.sub_add_cancel,
      ArmCore.regValue, if_pos rfl]
    generalize c.reg.rData 15 + 4 = x
    rw [BitVec.and_assoc]
    rfl
  · rw [if_neg h15]
    by_cases h16 : i = 16
    · subst h16
      rfl
    · rw [if_pos (by omega), hv i (by omega), slotValue, if_neg h15]

/-- The cell `i` was saved. -/
def Covers (saves : List Request) (i : Nat) : Prop :=
  ∃ address n, Request.upload address n ∈ saves ∧ address.toNat ≤ i ∧
    i < address.toNat + n.toNat

theorem Memory.bytes_getD (mem : Memory) (address : BitVec 32) {n k : Nat} (hk : k < n) :
    (mem.bytes address n).getD k 0 = mem.address (address.toNat + k) := by
  rw [bytes, List.getD_eq_getElem?_getD, List.getElem?_map, List.getElem?_range' hk, Nat.one_mul]
  rfl

/-- What is put back stays, and what was not saved is left alone. -/
theorem recovered {saves restores : List Request} {us : List GdbLocals} {ps : List (List Byte)}
    (h : List.Forall₂ (Recovers c) saves restores) (hserved : Served cfg restores us t ps t')
    (hsize : t.arm.mem.size = c.mem.size) :
    (∀ i, Covers saves i ∨ t.arm.mem.address i = c.mem.address i →
        t'.arm.mem.address i = c.mem.address i) ∧
      (.dump ∈ saves ∨ RegistersLike c t.arm → RegistersLike c t'.arm) := by
  induction h generalizing us t ps with
  | nil =>
      cases hserved
      refine ⟨fun i hi => hi.resolve_left ?_, fun hi => hi.resolve_left List.not_mem_nil⟩
      rintro ⟨address, n, hmem, -⟩
      exact List.not_mem_nil hmem
  | @cons _ _ saves _ hfirst _ ih =>
      cases hserved with
      | cons hserves hrest =>
          obtain ⟨hcells, hregs⟩ := ih hrest (hserves.kept.size.trans hsize)
          cases hfirst with
          | registers hv =>
              cases hserves
              refine ⟨fun i hi => hcells i (hi.imp_left ?_), fun _ =>
                hregs (.inr (registersLike_restored hv))⟩
              rintro ⟨address, n, hmem, hi⟩
              rcases List.mem_cons.mp hmem with heq | hmem
              · cases heq
              · exact ⟨address, n, hmem, hi⟩
          | @memory address n hinside =>
              have hbytes : (c.mem.bytes address n.toNat).length = n.toNat := by
                simp [Memory.bytes]
              have hsaved (i : Nat) (hi : Covers (.upload address n :: saves) i) :
                  (address.toNat ≤ i ∧ i < address.toNat + n.toNat) ∨ Covers saves i := by
                obtain ⟨address', n', hmem, hi⟩ := hi
                rcases List.mem_cons.mp hmem with heq | hmem
                · cases heq
                  exact .inl hi
                · exact .inr ⟨address', n', hmem, hi⟩
              have hdump : Request.dump ∈ Request.upload address n :: saves → .dump ∈ saves :=
                List.mem_of_ne_of_mem fun heq => by cases heq
              cases hserves with
              | download =>
                  refine ⟨fun i hi => hcells i ?_, fun hi => hregs (hi.imp_left hdump)⟩
                  by_cases hin : address.toNat ≤ i ∧ i < address.toNat + n.toNat
                  · right
                    have hpatched := @Memory.patched_inside t.arm.mem address
                      (c.mem.bytes address n.toNat) i hin.1 (by rw [hbytes]; exact hin.2)
                    have hcell := c.mem.bytes_getD address
                      (show i - address.toNat < n.toNat by omega)
                    rw [Nat.add_sub_cancel' hin.1] at hcell
                    exact hpatched.trans hcell
                  · refine hi.imp (fun hi => (hsaved i hi).resolve_left hin) fun hi => ?_
                    exact (Memory.patched_outside (by rw [hbytes]; omega)).trans hi
              | refuse _ _ houtside =>
                  -- only an empty range is refused
                  have hempty : address.toNat + n.toNat ≤ c.mem.size := hinside
                  refine ⟨fun i hi => hcells i (hi.imp_left fun hi => ?_),
                    fun hi => hregs (hi.imp_left hdump)⟩
                  exact (hsaved i hi).resolve_left (by omega)

/-- All of it together: what was not saved may not have been changed. -/
theorem restored {saves between restores : List Request} {us us' us'' : List GdbLocals}
    {saved replies oks : List (List Byte)} {t₀ t₂ : Target}
    (hbackup : Backup cfg saves saved restores)
    (hsaves : Served cfg saves us t saved t₀) (hbetween : Served cfg between us' t₀ replies t₂)
    (hrestores : Served cfg restores us'' t₂ oks t') (hdump : .dump ∈ saves)
    (hcells : ∀ i, ¬ Covers saves i → t₂.arm.mem.address i = t.arm.mem.address i)
    (hexception : t.exception = 0) : t.Alike t' := by
  obtain ⟨rfl, hrecovers⟩ := hbackup.recovers hsaves
  have hkept := hbetween.kept
  have hkept' := hkept.trans hrestores.kept
  obtain ⟨hmem, hregs⟩ := recovered hrecovers hrestores hkept.size
  refine ⟨⟨?_, fun r => ?_⟩, ?_⟩
  · refine Memory.eq_of_cells hkept'.order hkept'.size fun i => hmem i ?_
    by_cases hi : Covers saves i
    · exact .inl hi
    · exact .inr (hcells i hi)
  · rcases Nat.lt_or_ge 16 r with hr | hr
    · -- the saved program status registers are not reached
      have hne : r ≠ 15 := by omega
      rw [ArmCore.regValue, ArmCore.regValue, if_neg hne, if_neg hne]
      exact hkept'.reg r hr
    · exact hregs (.inl hdump) r hr
  · rw [hexception]
    exact hkept'.exception hexception

end

/-! ## The law -/

/-- **A session that puts back what it has saved goes on as if nothing had happened since.** -/
theorem rollback (cfg : GdbConfig) (xs : List Exchange) (arrivals : List Arrival) (g : Gdb)
    (saves between restores rest : List Request) (us₁ us₂ us₃ us₄ : List GdbLocals)
    (saved replies oks answers : List (List Byte)) (t₀ t₁ t₂ t₃ : Target)
    (hxs : List.Forall₂ (Exchange.Carries cfg) xs (saves ++ (between ++ (restores ++ rest))))
    (harrivals : arrivals.map Arrival.token = scannerTokens (xs.flatMap Exchange.bytes))
    (hlocals : acceptedLocals arrivals = us₁ ++ (us₂ ++ (us₃ ++ us₄)))
    (hsaves : Served cfg saves us₁ g.target saved t₀)
    (hbetween : Served cfg between us₂ t₀ replies t₁)
    (hrestores : Served cfg restores us₃ t₁ oks t₂)
    (hrest : Served cfg rest us₄ g.target answers t₃)
    (hbackup : Backup cfg saves saved restores) (hdump : .dump ∈ saves)
    (hcells : ∀ i, ¬ Covers saves i → t₁.arm.mem.address i = g.arm.mem.address i)
    (hexception : g.targetException = 0) :
    let o := yylex cfg arrivals g
    o.value = .ok () ∧ t₃.Alike o.state.target ∧
      sends o.events
        = (List.zipWith Exchange.answer xs (saved ++ (replies ++ (oks ++ answers)))).flatten := by
  intro o
  have halike := restored hbackup hsaves hbetween hrestores hdump hcells hexception
  obtain ⟨t₃', hrest', hend'⟩ := hrest.alike halike
  have hserved := hsaves.append (hbetween.append (hrestores.append hrest'))
  rw [← hlocals] at hserved
  obtain ⟨g', es, -, hend, htarget, hsends⟩ := yylex_session hxs harrivals hserved
  refine ⟨hend.value, ?_, (sends_of_runs hend).trans hsends⟩
  rw [show o.state = g' from hend.state, htarget]
  exact hend'

/-- Registers and two bytes are saved, changed and put back; then r7 is asked for. -/
def savedAndPutBack : List Exchange :=
  let download (e : List Byte) := downloadRequest (text ['4']) (text ['2']) e
  [[chr 'g'], uploadRequest (text ['4']) (text ['2']),
      chr 'P' :: (text ['7'] ++ chr '=' :: wordText littleEndian 0x12345678), download [1, 2],
      chr 'G' :: generalText littleEndian (idleGdb 64).arm, download [0, 0],
      chr 'p' :: text ['7']].map Exchange.clean

theorem generalText_frame (cfg : GdbConfig) (c : ArmCore) :
    ∀ b ∈ chr 'G' :: generalText cfg c, b ≠ chr '$' ∧ b ≠ chr '#' := by
  refine List.forall_mem_cons.mpr ⟨by decide, fun b hb => ?_⟩
  rcases generalText_mem cfg c b hb with hhex | rfl
  · exact (noDelimiter_of_isHexDigit hhex).frame
  · decide

theorem savedAndPutBack_carries : List.Forall₂ (Exchange.Carries littleEndian) savedAndPutBack
    ([.dump, .upload 4 2] ++ ([.write 7 0x12345678, .download 4 [1, 2]] ++
      ([.restore (slotValue (idleGdb 64).arm) (idleGdb 64).arm.cpsr, .download 4 [0, 0]] ++
        [.read 7]))) := by
  have hfour : Digits (text ['4']) 4 := ⟨by decide, by decide, by decide⟩
  have htwo : Digits (text ['2']) 2 := ⟨by decide, by decide, by decide⟩
  have hplain {a b : Byte} (h : ∀ x ∈ [a, b], x ≠ 0x23 ∧ x ≠ 0x24 ∧ x ≠ 0x7d) :
      Escaped [a, b] [a, b] := .plain (h a (by simp)) (.plain (h b (by simp)) .nil)
  refine .cons (Exchange.carries_clean (by decide) .dump)
    (.cons (Exchange.carries_clean (by decide) (.upload hfour htwo))
      (.cons (Exchange.carries_clean (by decide +kernel) ?_)
        (.cons (Exchange.carries_clean (by decide) ?_)
          (.cons (Exchange.carries_clean (generalText_frame _ _) ?_)
            (.cons (Exchange.carries_clean (by decide) ?_)
              (.cons (Exchange.carries_clean (by decide) ?_) .nil))))))
  · exact .write ⟨by decide, by decide, by decide⟩ (wordDigits_wordText _ _)
  · exact .download hfour htwo rfl (hplain (by decide))
  · show Request.Text _ _ (chr 'G' :: generalText _ _)
    rw [generalText_eq_layout]
    exact .restore (fun _ _ => wordDigits_wordText _ _) (wordDigits_wordText _ _) rfl
  · exact .download hfour htwo rfl (hplain (by decide))
  · exact .read (by decide) (by decide)

theorem backup_savedAndPutBack : Backup littleEndian [.dump, .upload 4 2]
    [generalText littleEndian (idleGdb 64).arm, hexText [0, 0]]
    [.restore (slotValue (idleGdb 64).arm) (idleGdb 64).arm.cpsr, .download 4 [0, 0]] := by
  refine .cons ?_ (.cons (.memory _) .nil)
  rw [generalText_eq_layout]
  exact .registers (fun _ _ => wordDigits_wordText _ _) (wordDigits_wordText _ _) rfl

theorem savedAndPutBack_locals :
    acceptedLocals ((savedAndPutBack.flatMap Exchange.tokens).map fun t => ⟨t, zeroLocals, []⟩)
      = List.replicate 7 zeroLocals := by
  refine List.eq_replicate_iff.mpr ⟨?_, fun u hu => ?_⟩
  · refine acceptedLocals_length savedAndPutBack_carries ?_
    rw [List.map_map]
    exact List.map_id _
  · obtain ⟨a, ha, hlocals⟩ := List.mem_filterMap.mp hu
    obtain ⟨t, -, rfl⟩ := List.mem_map.mp ha
    unfold Arrival.accepted? at hlocals
    split at hlocals
    · exact (Option.some.inj (Option.ite_none_right_eq_some.mp hlocals).2).symm
    · cases hlocals

theorem rollback_savedAndPutBack :
    let arrivals : List Arrival :=
      (savedAndPutBack.flatMap Exchange.tokens).map fun t => ⟨t, zeroLocals, []⟩
    let o := yylex littleEndian arrivals (idleGdb 64)
    let ok := text ['O', 'K']
    o.value = .ok () ∧ (idleGdb 64).target.Alike o.state.target ∧
      sends o.events = (List.zipWith Exchange.answer savedAndPutBack
        ([generalText littleEndian (idleGdb 64).arm, hexText [0, 0]] ++ ([ok, ok] ++ ([ok, ok] ++
          [wordText littleEndian 0])))).flatten :=
  rollback littleEndian savedAndPutBack _ (idleGdb 64) [.dump, .upload 4 2]
    [.write 7 0x12345678, .download 4 [1, 2]]
    [.restore (slotValue (idleGdb 64).arm) (idleGdb 64).arm.cpsr, .download 4 [0, 0]] [.read 7]
    (List.replicate 2 zeroLocals) (List.replicate 2 zeroLocals) (List.replicate 2 zeroLocals)
    [zeroLocals] _ _ _ _ _ _ _ _ savedAndPutBack_carries
    (by rw [scannerTokens_session savedAndPutBack_carries, List.map_map]; exact List.map_id _)
    savedAndPutBack_locals
    (.cons (.dump _) (.cons (.upload _ (by decide) (by decide) (by decide)) (.nil _)))
    (.cons (.write _ (by decide) _)
      (.cons (.download _ (List.cons_ne_nil _ _) (by decide) (by decide)) (.nil _)))
    (.cons (.restore _ _ _)
      (.cons (.download _ (List.cons_ne_nil _ _) (by decide) (by decide)) (.nil _)))
    (.cons (.read _ (by decide)) (.nil _)) backup_savedAndPutBack (List.mem_cons_self ..)
    (fun i hi => Memory.patched_outside (by
      by_contra hin
      exact hi ⟨4, 2, by simp, by simpa using hin⟩))
    rfl

end Armator
