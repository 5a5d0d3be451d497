import Armator.System.Target

set_option autoImplicit false

/-! # Packets serve their requests

Whatever a request is written like, its packet is acknowledged, leaves what the request leaves of
the target, and is answered with the payload of the request (`serves_runs`).
-/

namespace Armator

open Logged CString

section

variable {cfg : GdbConfig} {u : GdbLocals} {g g' : Gdb} {m : GdbM Unit}
  {p reply ds behind : List Byte} {t' : Target}

/-- `m` acknowledges a packet and answers with `reply`; the target it leaves is `t'`. -/
def Answers (m : GdbM Unit) (g : Gdb) (reply : List Byte) (t' : Target) : Prop :=
  ∃ es, Runs shown m g (.ok ()) ((g.withTarget t').replied reply) es ∧
    sends es = [[chr '+'], frame reply]

/-- A handler that replies once, behind the acknowledgement. -/
theorem answers_of_handler (hds : Seals ds p) {es : List GdbEvent} (hes : Silent es)
    {ts : List (List Byte)} (hts : ts.flatten = reply)
    (hrun : Runs shown (dispatch cfg u (p.headD 0) (argument p ds behind)) g (.ok ())
      ((g.withTarget t').replied reply) (es ++ replyEvents ts)) :
    Answers (gdbPacketAnalysis cfg u (packetText p ds ++ 0 :: behind) (packetText p ds).length) g
      reply t' := by
  refine ⟨_, hds.runs hrun, ?_⟩
  rw [sends_send, sends_reply hes, hts]

/-! ## Registers -/

/-- What follows a command character is a string. -/
theorem cstring_argument {c : Byte} {q : List Byte} (hq : ∀ b ∈ q, b ≠ 0) (ds behind : List Byte) :
    cstring (argument (c :: q) ds behind) = q := by
  rw [argument_eq (List.cons_ne_nil c q), List.tail_cons, cstring_append hq]

/-- `p` prints what the register's slot of a dump shows. -/
theorem printedReg_eq_slotValue {c : ArmCore} {r : BitVec 32} :
    printedReg c r = slotValue c r.toNat := by
  by_cases h15 : r = 15
  · subst h15
    rw [printedReg, if_pos rfl]
    rfl
  · have hne : r.toNat ≠ 15 := fun heq => h15 (BitVec.eq_of_toNat_eq heq)
    rw [printedReg, if_neg h15, slotValue, if_neg hne]
    exact BitVec.sub_zero _

theorem read_answers {ns : List Byte} (hnul : ∀ b ∈ ns, b ≠ 0) (hr : atoi ns < 16)
    (hds : Seals ds (chr 'p' :: ns)) :
    Answers (gdbPacketAnalysis cfg u (packetText (chr 'p' :: ns) ds ++ 0 :: behind)
      (packetText (chr 'p' :: ns) ds).length) g
      (wordText cfg (slotValue g.arm (atoi ns).toNat)) g.target := by
  have hstring := cstring_argument (c := chr 'p') hnul ds behind
  have hread := readRegisterHandler_runs cfg (argument (chr 'p' :: ns) ds behind) g
    (by rw [hstring]; exact hr)
  rw [hstring, printedReg_eq_slotValue] at hread
  exact answers_of_handler hds (Silent.cons rfl silent_nil) (wordTexts_flatten cfg _) hread

/-- A restore sets the registers and nothing else. -/
theorem generalRestored_withRegisters {texts : Nat → List Byte} {v : Nat → BitVec 32}
    {unused cpsr rest : List Byte} {vcpsr : BitVec 32} {c : ArmCore}
    (htexts : ∀ i < 16, WordDigits cfg (texts i) (v i)) (hcpsr : WordDigits cfg cpsr vcpsr)
    (hunused : unused.length = (8 * 3 + 1) * 8) :
    c.generalRestored cfg u (layout texts unused cpsr ++ rest) = c.withRegisters v vcpsr := by
  have hreg (r : Nat) :
      (c.generalRestored cfg u (layout texts unused cpsr ++ rest)).reg.rData r
        = (c.withRegisters v vcpsr).reg.rData r := generalRestored_reg htexts hcpsr hunused r
  have hmem := c.generalRestored_mem cfg u (layout texts unused cpsr ++ rest)
  have hcycle := c.generalRestored_cycleCount cfg u (layout texts unused cpsr ++ rest)
  generalize c.generalRestored cfg u (layout texts unused cpsr ++ rest) = c' at hreg hmem hcycle ⊢
  obtain ⟨cycleCount, reg, mem⟩ := c'
  have hregs : reg = (c.withRegisters v vcpsr).reg := congrArg Registers.mk (funext hreg)
  cases hregs
  cases hmem
  cases hcycle
  rfl

/-! ## Memory -/

theorem Memory.patched_inside {mem : Memory} {address : BitVec 32} {d : List (BitVec 8)} {i : Nat}
    (hlow : address.toNat ≤ i) (hhigh : i < address.toNat + d.length) :
    (mem.patched address d).address i = d.getD (i - address.toNat) 0 := if_pos ⟨hlow, hhigh⟩

theorem Memory.patched_outside {mem : Memory} {address : BitVec 32} {d : List (BitVec 8)} {i : Nat}
    (hi : i < address.toNat ∨ address.toNat + d.length ≤ i) :
    (mem.patched address d).address i = mem.address i := if_neg (by omega)

/-- Inside the memory, a download patches it. -/
theorem Memory.stored_patched {mem : Memory} {address : BitVec 32} {d : List (BitVec 8)}
    (hfit : address.toNat + d.length ≤ 2 ^ 32) (hlength : d.length < 2 ^ 32) :
    mem.stored address d = mem.patched address d := by
  have haddress : (mem.stored address d).address = (mem.patched address d).address := by
    funext i
    by_cases hi : address.toNat ≤ i ∧ i < address.toNat + d.length
    · obtain ⟨k, rfl⟩ : ∃ k, i = address.toNat + k := ⟨i - address.toNat, by omega⟩
      have hcell := @Memory.stored_cell mem address d hlength k (by omega)
      rw [wrapped_toNat address (by omega), if_pos (by omega)] at hcell
      rw [hcell, Memory.patched_inside hi.1 hi.2, Nat.add_sub_cancel_left]
    · have hnot : i ∉ covered address d.length := fun hcovered =>
        hi (covered_interval hfit hcovered)
      rw [Memory.stored_frame hnot, Memory.patched_outside (by omega)]
  have hsize : (mem.stored address d).size = mem.size := Memory.stored_size
  have hendian : (mem.stored address d).isBigEndian = mem.isBigEndian := by
    clear haddress hsize hfit hlength
    induction d generalizing mem address with
    | nil => rfl
    | cons b d ih => exact ih
  generalize mem.stored address d = mem' at haddress hsize hendian ⊢
  obtain ⟨isBigEndian, cells, size⟩ := mem'
  cases haddress
  cases hsize
  cases hendian
  rfl

/-- Inside the memory, a dump is the bytes that lie there. -/
theorem Memory.dumped_bytes {mem : Memory} {address : BitVec 32} {n : Nat}
    (hinside : mem.Inside address n) (hfit : address.toNat + n ≤ 2 ^ 32) (hn : n < 2 ^ 32) :
    mem.dumped n address = mem.bytes address n := by
  rw [Memory.dumped_inside hinside, Memory.bytes, covered, List.map_map, List.range'_eq_map_range,
    List.map_map]
  refine List.map_congr_left fun k hk => ?_
  have hlt : k < n := List.mem_range.mp hk
  show mem.address (address + BitVec.ofNat 32 k).toNat = mem.address (address.toNat + k)
  rw [wrapped_toNat address (by omega), if_pos (by omega)]

theorem upload_answers {address n : BitVec 32} {as ns : List Byte} (ha : Digits as address)
    (hn : Digits ns n) (hlength : n.toNat ≤ 509) (hinside : g.mem.Inside address n.toNat)
    (hfit : address.toNat + n.toNat ≤ 2 ^ 32) (hds : Seals ds (uploadRequest as ns)) :
    Answers (gdbPacketAnalysis cfg u (packetText (uploadRequest as ns) ds ++ 0 :: behind)
      (packetText (uploadRequest as ns) ds).length) g (hexText (g.mem.bytes address n.toNat))
      g.target := by
  have hbytes : (g.mem.bytes address n.toNat).length = n.toNat := by simp [Memory.bytes]
  have hcount : BitVec.ofNat 32 (g.mem.bytes address n.toNat).length = n := by
    rw [hbytes]
    exact BitVec.ofNat_toNat 32 n
  have hdumped : g.mem.dumped (g.mem.bytes address n.toNat).length address
      = g.mem.bytes address n.toNat := by
    rw [hbytes, Memory.dumped_bytes hinside hfit n.isLt]
  rw [← hcount] at hn
  obtain ⟨es, hrun, hsends, -⟩ := upload_runs (u := u) ha hn
    (by omega) hdumped
  exact ⟨_, hds.runs hrun, by rw [sends_send, hsends]⟩

theorem download_answers {address n : BitVec 32} {d : List (BitVec 8)} {as ns e : List Byte}
    (ha : Digits as address) (hn : Digits ns n) (hd : n.toNat = d.length) (he : Escaped d e)
    (hne : d ≠ []) (hinside : g.mem.Inside address d.length)
    (hfit : address.toNat + d.length ≤ 2 ^ 32)
    (hds : Seals ds (downloadRequest as ns e)) :
    Answers (gdbPacketAnalysis cfg u (packetText (downloadRequest as ns e) ds ++ 0 :: behind)
      (packetText (downloadRequest as ns e) ds).length) g (text ['O', 'K'])
      { g.target with arm := { g.arm with mem := g.mem.patched address d } } := by
  have haddress : address.toNat < g.mem.size := by
    have hpos := List.length_pos_of_ne_nil hne
    have hsize : address.toNat + d.length ≤ g.mem.size := hinside
    omega
  have hlength : d.length < 2 ^ 32 := hd ▸ n.isLt
  have hcount : BitVec.ofNat 32 d.length = n := by
    rw [← hd]
    exact BitVec.ofNat_toNat 32 n
  rw [← hcount] at hn
  obtain ⟨es, hrun, hsends⟩ := downloadHandler_runs (u := u) ha hn he
    hlength haddress
  rw [Memory.stored_patched hfit hlength] at hrun
  exact ⟨_, hds.runs hrun, by rw [sends_send, hsends]⟩

/-- A download that begins behind the memory is refused. -/
theorem refuse_answers {address n : BitVec 32} {as ns e : List Byte} (ha : Digits as address)
    (hn : Digits ns n) (houtside : g.mem.size ≤ address.toNat)
    (hds : Seals ds (downloadRequest as ns e)) :
    Answers (gdbPacketAnalysis cfg u (packetText (downloadRequest as ns e) ds ++ 0 :: behind)
      (packetText (downloadRequest as ns e) ds).length) g (text ['E', '0', '2']) g.target := by
  have hdata : argument (downloadRequest as ns e) ds behind
      = as ++ chr ',' :: (ns ++ chr ':' :: (e ++ 0 :: (ds ++ 0 :: behind))) := by
    rw [downloadRequest, argument_eq (List.cons_ne_nil _ _)]
    simp
  have hcolon : EndsNumber (chr ':') := by decide
  have hrange := ha.givenRange u hn hcolon (e ++ 0 :: (ds ++ 0 :: behind))
  rw [← hdata] at hrange
  have hrun := writeMemoryBinary_refused u (argument (downloadRequest as ns e) ds behind) g
    (by rw [hrange]; exact Nat.not_lt.mpr houtside)
  rw [← List.append_assoc] at hrun
  exact answers_of_handler hds ((silent_rangeEvents _).append (silent_afterEvents _ _))
    List.flatten_singleton hrun

/-! ## Execution -/

theorem steppedBy_exception (h : Host) (us : Nat → Locals) (g : Gdb) (n : Nat) :
    (g.steppedBy h us n).targetException = exceptionAfter g.targetException n := by
  cases n <;> rfl

/-- A run of `cont` up to a breakpoint. -/
theorem cont_answers {n : Nat} (hgo : ∀ i < n, (g.arm.after cfg.host u.steps i).Goes)
    (hstop : (g.arm.after cfg.host u.steps n).Stops) (hfuel : n < u.fuel)
    (hds : Seals ds [chr 'c']) :
    Answers (gdbPacketAnalysis cfg u (packetText [chr 'c'] ds ++ 0 :: behind)
      (packetText [chr 'c'] ds).length) g (stopReason (exceptionAfter g.targetException n))
      ⟨g.arm.after cfg.host u.steps n, exceptionAfter g.targetException n⟩ := by
  obtain ⟨es, hloop, hsends, -⟩ := contLoop_runs hgo hstop (Nat.zero_add _) hfuel u.instruction
  have hreason := gdbSendStopReason_runs (g.steppedBy cfg.host u.steps n)
  rw [steppedBy_exception] at hreason
  have hstate : g.steppedBy cfg.host u.steps n = g.withTarget
      ⟨g.arm.after cfg.host u.steps n, exceptionAfter g.targetException n⟩ := by
    rw [← Gdb.steppedBy_arm, ← steppedBy_exception cfg.host u.steps g n]
    clear hgo hstop hfuel hloop hreason
    induction n with
    | zero => rfl
    | succ n ih =>
        rw [Gdb.steppedBy, ih]
        rfl
  rw [hstate] at hloop hreason
  refine ⟨_, hds.runs (hloop.okBind hreason), ?_⟩
  rw [sends_send, sends_append, hsends, sends_replyEvents, List.flatten_singleton]
  rfl

/-! ## Threads -/

/-- Only the operation decides, not what stands behind its NUL. -/
theorem threadAnswer_argument {op : List Byte} (hnul : ∀ b ∈ op, b ≠ 0) (ds behind : List Byte) :
    threadAnswer (argument (chr 'H' :: op) ds behind) = threadAnswer op := by
  rw [argument_eq (List.cons_ne_nil _ _), List.tail_cons]
  cases op with
  | nil =>
      have htype : (0 : Byte) ≠ chr 'c' ∧ (0 : Byte) ≠ chr 'g' := by decide
      have hnone (rest : List Byte) : ¬ SelectsThread (0 :: rest) := by
        rintro ⟨hc | hg, -⟩
        · exact htype.1 hc
        · exact htype.2 hg
      have hempty : ¬ SelectsThread [] := by decide
      rw [threadAnswer, threadAnswer, if_neg hempty]
      exact if_neg (hnone _)
  | cons c op =>
      obtain ⟨-, hop⟩ := List.forall_mem_cons.mp hnul
      have hvalue : cstring ((c :: op ++ 0 :: (ds ++ 0 :: behind)).drop 1)
          = cstring ((c :: op).drop 1) := by
        show cstring (op ++ 0 :: (ds ++ 0 :: behind)) = cstring op
        exact cstring_nul op _
      have hselects : SelectsThread (c :: op ++ 0 :: (ds ++ 0 :: behind))
          ↔ SelectsThread (c :: op) := by
        rw [SelectsThread, SelectsThread, hvalue]
        rfl
      rw [threadAnswer, threadAnswer]
      exact if_congr hselects rfl rfl

/-! ## Every request -/

/-- **A packet serves its request.** -/
theorem serves_runs {r : Request} (htext : r.Text cfg p)
    (hserves : Serves cfg u r g.target reply t') (hds : Seals ds p) (behind : List Byte) :
    Answers (gdbPacketAnalysis cfg u (packetText p ds ++ 0 :: behind) (packetText p ds).length) g
      reply t' := by
  cases htext with
  | reason =>
      cases hserves
      exact answers_of_handler hds silent_nil List.flatten_singleton (gdbSendStopReason_runs g)
  | dump =>
      cases hserves
      exact answers_of_handler hds silent_nil (generalTexts_flatten cfg g.arm)
        (readGeneralRegisters_runs cfg g)
  | restore htexts hcpsr hunused =>
      cases hserves
      obtain ⟨es, hrun, hsends⟩ := restore_runs cfg u behind g hds
      rw [generalRestored_withRegisters htexts hcpsr hunused] at hrun
      exact ⟨es, hrun, hsends⟩
  | read hnul hr =>
      subst hr
      cases hserves with
      | read _ hlt => exact read_answers hnul hlt hds
  | write hr hv =>
      cases hserves with
      | write _ hlt => exact writeRegister_runs u behind g hlt hr hv hds
  | upload ha hn =>
      cases hserves with
      | upload _ hle hinside hfit => exact upload_answers ha hn hle hinside hfit hds
  | download ha hn hd he =>
      cases hserves with
      | download _ hne hinside hfit =>
          exact download_answers ha hn hd he hne hinside hfit hds
      | refuse _ _ houtside => exact refuse_answers ha hn houtside hds
  | step =>
      cases hserves
      exact answers_of_handler hds (silent_arm _) List.flatten_singleton (step_runs cfg u g)
  | cont =>
      cases hserves with
      | cont _ hgo hstop hfuel => exact cont_answers hgo hstop hfuel hds
  | @query q hnul =>
      cases hserves
      have hquery := query_runs (argument (chr 'q' :: q) ds behind) g
      rw [cstring_argument hnul] at hquery
      exact answers_of_handler hds (Silent.cons rfl silent_nil) List.flatten_singleton hquery
  | @thread op hnul =>
      cases hserves
      have hthread := setThread_runs (argument (chr 'H' :: op) ds behind) g
      rw [threadAnswer_argument hnul] at hthread
      exact answers_of_handler hds (Silent.cons rfl (Silent.cons rfl silent_nil))
        List.flatten_singleton hthread
  | unknown hp =>
      cases hserves
      have hnone : dispatch cfg u (p.headD 0) (argument p ds behind) = gdbSendData [] := by
        rw [dispatch, hp]
      refine answers_of_handler hds silent_nil List.flatten_singleton ?_
      rw [hnone]
      exact gdbSendData_runs g (by simp)

end

end Armator
