import Armator.System.Link

set_option autoImplicit false

/-! # Debugging

What a debugger gets to see of the simulator is the target: whatever happens on the line, a session
carries out the requests one after the other, each one once, and every reply is the one of its
request (`session_served`).
-/

namespace Armator

open Logged CString

/-! ## The reply buffer -/

section

variable {cfg : GdbConfig} {as : List Arrival} {u : GdbLocals} {t t' : Target}
  {reply : List Byte}

/-- The one request with a reply of any length is an upload. -/
theorem upload_of_head {r : Request} {p : List Byte} (htext : r.Text cfg p)
    (hm : p.head? = some (chr 'm')) :
    ∃ address n as ns, r = .upload address n ∧ p = uploadRequest as ns ∧ Digits as address ∧
      Digits ns n := by
  have hhead {c : Byte} {q : List Byte} (hc : c ≠ chr 'm') : (c :: q).head? ≠ some (chr 'm') :=
    fun heq => hc (Option.some.inj heq)
  cases htext with
  | upload ha hn => exact ⟨_, _, _, _, rfl, rfl, ha, hn⟩
  | unknown hp =>
      rw [(head?_eq_some_iff (by decide)).mp hm] at hp
      cases hp
  | _ => exact absurd hm (hhead (by decide))

/-- An upload that is served asks for no more than fits. -/
theorem fits_of_serves {r : Request} {p ds behind : List Byte} (htext : r.Text cfg p)
    (hserves : Serves cfg u r t reply t') (v : GdbLocals) (hm : p.head? = some (chr 'm')) :
    (givenRange v (argument p ds behind)).2.toNat ≤ 509 := by
  obtain ⟨address, n, as, ns, rfl, rfl, ha, hn⟩ := upload_of_head htext hm
  have hdata : argument (uploadRequest as ns) ds behind
      = as ++ chr ',' :: (ns ++ 0 :: (ds ++ 0 :: behind)) := by
    rw [uploadRequest, argument_eq (List.cons_ne_nil _ _)]
    simp
  have hnul : EndsNumber 0 := by decide
  rw [hdata, ha.givenRange v hn hnul (ds ++ 0 :: behind)]
  cases hserves with
  | upload _ hle _ _ => exact hle

theorem fits_exchange {x : Exchange} {r : Request} (hx : x.Carries cfg r)
    (has : as.map Arrival.token = x.tokens) (hserves : Serves cfg u r t reply t') :
    ∀ a ∈ as, a.Fits := by
  intro a ha
  have htoken : a.token ∈ x.tokens := has ▸ List.mem_map_of_mem ha
  -- a packet of the exchange is a damaged one or the good one
  have hpacket : ∀ yytext, a.token = .packet yytext →
      (∃ y ∈ x.damaged, yytext = packetText y.payload y.digits) ∨
        yytext = packetText x.good.payload x.good.digits := by
    intro yytext heq
    rw [heq] at htoken
    have hof {y : Transmission} (hy : .packet yytext ∈ y.tokens) :
        yytext = packetText y.payload y.digits := by
      rcases List.mem_append.mp hy with hjunk | hlast
      · obtain ⟨b, -, hb⟩ := List.mem_map.mp hjunk
        have hrecognised := junkToken_recognised b
        rw [hb] at hrecognised
        cases hrecognised
      · exact ScannerToken.packet.inj (List.mem_singleton.mp hlast)
    rcases List.mem_append.mp htoken with hdamaged | hrest
    · obtain ⟨y, hy, hin⟩ := List.mem_flatMap.mp hdamaged
      exact .inl ⟨y, hy, hof hin⟩
    · rcases List.mem_append.mp hrest with hgood | hrest
      · exact .inr (hof hgood)
      · rcases List.mem_append.mp hrest with hin | hin
        · cases List.eq_of_mem_replicate hin
        · cases List.eq_of_mem_replicate hin
  unfold Arrival.Fits
  cases heq : a.token with
  | packet yytext =>
      rcases hpacket yytext heq with ⟨y, hy, rfl⟩ | rfl
      · obtain ⟨hwell, hbad⟩ := hx.damaged y hy
        exact ⟨_, _, rfl, hwell.packet, fun hgood => absurd hgood hbad⟩
      · exact ⟨_, _, rfl, hx.good.1.packet, fun _ hm => fits_of_serves hx.text hserves a.locals hm⟩
  | _ => trivial

theorem fits_session {xs : List Exchange} {rs : List Request} {replies : List (List Byte)}
    (hxs : List.Forall₂ (Exchange.Carries cfg) xs rs)
    (has : as.map Arrival.token = xs.flatMap Exchange.tokens)
    (hserved : Served cfg rs (acceptedLocals as) t replies t') : ∀ a ∈ as, a.Fits := by
  induction hxs generalizing as t replies with
  | nil =>
      rw [List.map_eq_nil_iff.mp has]
      exact fun a ha => absurd ha List.not_mem_nil
  | @cons x r xs rs hx _ ih =>
      rw [List.flatMap_cons] at has
      obtain ⟨bs, cs, rfl, hbs, hcs⟩ := List.map_eq_append_iff.mp has
      obtain ⟨u, hu⟩ := acceptedLocals_exchange hx hbs
      rw [acceptedLocals_append, hu, List.singleton_append] at hserved
      cases hserved with
      | cons hfirst hrest =>
          exact List.forall_mem_append.mpr ⟨fits_exchange hx hbs hfirst, ih hcs hrest⟩

end

/-! ## The law -/

/-- **A session over a bad line carries out each of its requests once, in order.** -/
theorem session_served (cfg : GdbConfig) (xs : List Exchange) (rs : List Request)
    (arrivals : List Arrival) (g : Gdb) (t' : Target) (replies : List (List Byte))
    (hxs : List.Forall₂ (Exchange.Carries cfg) xs rs)
    (harrivals : arrivals.map Arrival.token = scannerTokens (xs.flatMap Exchange.bytes))
    (hserved : Served cfg rs (acceptedLocals arrivals) g.target replies t') :
    let o := yylex cfg arrivals g
    o.value = .ok () ∧ o.state.target = t' ∧
      sends o.events = (List.zipWith Exchange.answer xs replies).flatten ∧
      ∀ k n, .store k n ∈ o.events → k + n ≤ MAX_PACKET_SIZE := by
  intro o
  obtain ⟨g', es, hrun, hend, htarget, hsends⟩ := yylex_session hxs harrivals hserved
  refine ⟨hend.value, ?_, (sends_of_runs hend).trans hsends, fun k n hmem => ?_⟩
  · rw [show o.state = g' from hend.state]
    exact htarget
  · rw [scannerTokens_session hxs] at harrivals
    have hstores := storesInside_actAll cfg (fits_session hxs harrivals hserved) 0
    refine hstores g k n ?_
    have hmem' := store_mem_of_runs hend hmem
    exact (mem_of_runs hrun rfl).mpr hmem'

/-- r7 is set in a packet that arrives damaged first, and its value is asked for twice. -/
def setAndRead : List Exchange :=
  let request := chr 'P' :: (text ['7'] ++ chr '=' :: wordText littleEndian 0x12345678)
  [⟨[⟨text ['x', 'y'], chr 'Q' :: request.tail, hex2 (checksum request)⟩],
      ⟨[], request, hex2 (checksum request)⟩, 0, 1⟩,
    ⟨[], ⟨[], chr 'p' :: text ['7'], hex2 (checksum (chr 'p' :: text ['7']))⟩, 1, 1⟩]

theorem setAndRead_carries : List.Forall₂ (Exchange.Carries littleEndian) setAndRead
    [.write 7 0x12345678, .read 7] := by
  refine .cons ⟨?_, ?_, ?_⟩ (.cons ⟨?_, ?_, ?_⟩ .nil)
  · exact List.forall_mem_singleton.mpr (by decide +kernel)
  · decide +kernel
  · exact .write ⟨by decide, by decide, by decide⟩ (wordDigits_wordText _ _)
  · exact List.forall_mem_nil _
  · decide +kernel
  · exact .read (by decide) (by decide)

theorem session_served_setAndRead :
    let arrivals : List Arrival :=
      (setAndRead.flatMap Exchange.tokens).map fun t => ⟨t, zeroLocals, []⟩
    let o := yylex littleEndian arrivals (idleGdb 64)
    o.value = .ok () ∧ o.state.target = ⟨(idleGdb 64).arm.setReg 7 0x12345678, 0⟩ ∧
      sends o.events = (List.zipWith Exchange.answer setAndRead
        [text ['O', 'K'], wordText littleEndian 0x12345678]).flatten ∧
      ∀ k n, .store k n ∈ o.events → k + n ≤ MAX_PACKET_SIZE :=
  session_served littleEndian setAndRead [.write 7 0x12345678, .read 7] _ (idleGdb 64) _ _
    setAndRead_carries
    (by rw [scannerTokens_session setAndRead_carries, List.map_map]; exact List.map_id _)
    (.cons (.write _ (by decide) _) (.cons (.read _ (by decide)) (.nil _)))

end Armator
