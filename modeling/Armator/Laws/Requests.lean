import Armator.Semantics.Arguments
import Armator.Semantics.Session

set_option autoImplicit false

/-! # Malformed requests

Six handlers parse their request. None of them checks it: most malformed requests are read
beyond their end, stop the program or are carried out with indeterminate values
(`parserLaw_iff`).
-/

namespace Armator

open Logged CString

/-! ## Requests -/

/-- The handlers that parse a request. -/
inductive Parser
  | readRegister
  | writeRegister
  | writeGeneralRegisters
  | writeMemoryBinary
  | readMemory
  | setThread

/-- The command character. -/
def Parser.char : Parser → Byte
  | .readRegister => chr 'p'
  | .writeRegister => chr 'P'
  | .writeGeneralRegisters => chr 'G'
  | .writeMemoryBinary => chr 'X'
  | .readMemory => chr 'm'
  | .setThread => chr 'H'

/-- A text of `n` bytes, some of them escaped. -/
inductive Content : Nat → List Byte → Prop
  | nil : Content 0 []
  | plain {b : Byte} {n : Nat} {e : List Byte} (hb : b ≠ 0x7d) (rest : Content n e) :
      Content (n + 1) (b :: e)
  | escape {b : Byte} {n : Nat} {e : List Byte} (rest : Content n e) :
      Content (n + 1) (0x7d :: b :: e)

/-- The text of the `i`-th register of a restore. -/
def slot (body : List Byte) (i : Nat) : List Byte := (body.drop (8 * i)).take 8

/-- What the protocol allows behind the command character: `n`, `n=r`, the registers, `a,l:c`,
`a,l` and an operation with a thread. -/
def Parser.WellFormed : Parser → List Byte → Prop
  | .readRegister, body => ∃ v, Digits body v ∧ v < 16
  | .writeRegister, body => ∃ ns ws v, body = ns ++ chr '=' :: ws ∧ Digits ns v ∧ v < 16 ∧
      IsHex ws ∧ ws.length = 8
  | .writeGeneralRegisters, body => body.length = 8 * 42 ∧
      ∀ i < 42, IsHex (slot body i) ∨ slot body i = xxxxxxxx
  | .writeMemoryBinary, body => ∃ as ns e a n, body = as ++ chr ',' :: (ns ++ chr ':' :: e) ∧
      Digits as a ∧ Digits ns n ∧ Content n.toNat e
  | .readMemory, body => ∃ as ns a n, body = as ++ chr ',' :: ns ∧ Digits as a ∧ Digits ns n
  | .setThread, body => ∃ op id, body = op :: id ∧
      (id = text ['-', '1'] ∨ IsHex id ∧ id ≠ [])

/-! ## The law -/

/-- An event of a handler that keeps to a request of `n` characters and its NUL: it reads
nothing behind them, and uses neither the position of a character that is not there nor a
variable without a value. -/
def GdbEvent.Tame (n : Nat) : GdbEvent → Prop
  | .load k => k ≤ n
  | .absent => False
  | .unassigned => False
  | _ => True

/-- The packet is acknowledged and answered with an error. -/
def ErrorReply (bytes : List (List Byte)) : Prop :=
  ∃ e, bytes = [[chr '+'], frame (chr 'E' :: e)]

/-- A request does not break its parser, and is refused if it is malformed. -/
structure ParserLaw (parser : Parser) (body : List Byte) (g : Gdb)
    (o : Outcome Gdb GdbEvent (Except Fault Unit)) : Prop where
  tame : ∀ e ∈ o.events, e.Tame body.length
  asserted : o.value ≠ .error .assertion
  refused : ¬ parser.WellFormed body → ErrorReply (sends o.events) ∧
    o.state.arm.reg = g.arm.reg ∧ o.state.mem = g.mem

/-- The requests that are handled as they should be: the well-formed ones, except for restores
with an 'x'; some that are refused for their address, whatever else is wrong with them; and
threads that are not selected. -/
def Parser.Copes (mem : Memory) : Parser → List Byte → Prop
  | .writeGeneralRegisters, body => IsHex body ∧ body.length = 8 * 42
  | .writeMemoryBinary, body => Parser.writeMemoryBinary.WellFormed body ∨
      (index body (chr ':')).isSome ∧
        ∃ a n, scanPair (cstring body) = (some a, some n) ∧ mem.size ≤ a.toNat
  | .setThread, body => body ≠ [] ∧ (Parser.setThread.WellFormed body ∨ ¬ SelectsThread body)
  | parser, body => parser.WellFormed body

section

variable {parser : Parser} {body ds behind : List Byte} {g g' : Gdb} {r : Except Fault Unit}
  {es es' : List GdbEvent} {n : Nat}

/-! ## Events -/

theorem tame_of_not_shown {e : GdbEvent} (he : shown e = false) : e.Tame n := by
  cases e <;> trivial

theorem parserLaw_of_runs {m : GdbM Unit} (h : Runs shown m g r g' es) :
    ParserLaw parser body g (m g) ↔ ParserLaw parser body g ⟨r, g', es⟩ := by
  have htame : (∀ e ∈ (m g).events, e.Tame body.length) ↔ ∀ e ∈ es, e.Tame body.length := by
    constructor
    · intro hall e he
      refine hall e ?_
      rw [← h.events] at he
      exact (List.mem_filter.mp he).1
    · intro hall e he
      cases hshown : shown e with
      | true => exact hall e ((mem_of_runs h hshown).mp he)
      | false => exact tame_of_not_shown hshown
  constructor
  · rintro ⟨htamed, hasserted, hrefused⟩
    rw [h.value] at hasserted
    rw [sends_of_runs h, h.state] at hrefused
    exact ⟨htame.mp htamed, hasserted, hrefused⟩
  · rintro ⟨htamed, hasserted, hrefused⟩
    refine ⟨htame.mpr htamed, ?_, ?_⟩
    · rw [h.value]
      exact hasserted
    · rw [sends_of_runs h, h.state]
      exact hrefused

/-- The law of a packet, from the run of its handler. -/
theorem parserLaw_packet {cfg : GdbConfig} {u : GdbLocals}
    (hds : Seals ds (parser.char :: body))
    (h : Runs shown (dispatch cfg u parser.char (body ++ 0 :: (ds ++ 0 :: behind))) g r g' es) :
    ParserLaw parser body g
        (gdbPacketAnalysis cfg u (packetText (parser.char :: body) ds ++ 0 :: behind)
          (packetText (parser.char :: body) ds).length g) ↔
      ParserLaw parser body g ⟨r, g', .send [chr '+'] :: es⟩ :=
  parserLaw_of_runs (hds.runs h)

/-- A well-formed request need not be refused. -/
theorem ParserLaw.of_wellFormed (hwf : parser.WellFormed body)
    (htame : ∀ e ∈ es, e.Tame body.length) (hr : r ≠ .error .assertion) :
    ParserLaw parser body g ⟨r, g', .send [chr '+'] :: es⟩ :=
  ⟨List.forall_mem_cons.mpr ⟨trivial, htame⟩, hr, fun hnot => absurd hwf hnot⟩

/-- A frame that does not begin with an 'E' is no error reply. -/
theorem not_errorReply {t : List Byte} (ht : t.head? ≠ some (chr 'E')) :
    ¬ ErrorReply [[chr '+'], frame t] := by
  rintro ⟨e, he⟩
  have hframe : frame t = frame (chr 'E' :: e) :=
    congrArg (fun bytes : List (List Byte) => bytes.getD 1 []) he
  cases t with
  | nil =>
      have hsecond : chr '#' = chr 'E' := congrArg (fun w => w.getD 1 0) hframe
      exact absurd hsecond (by decide)
  | cons c t =>
      have hsecond : c = chr 'E' := congrArg (fun w => w.getD 1 0) hframe
      exact ht (by rw [hsecond]; rfl)

/-- A malformed request that is answered, but not with an error. -/
theorem not_parserLaw_reply (hwf : ¬ parser.WellFormed body) {p : List GdbEvent}
    {ts : List (List Byte)} (hp : Silent p) (ht : ts.flatten.head? ≠ some (chr 'E')) :
    ¬ ParserLaw parser body g ⟨r, g', .send [chr '+'] :: (p ++ replyEvents ts)⟩ := by
  intro hlaw
  refine not_errorReply ht ?_
  have hreply := (hlaw.refused hwf).1
  rw [sends_send, sends_reply hp] at hreply
  exact hreply

/-- A malformed request that is not answered. -/
theorem not_parserLaw_silent (hwf : ¬ parser.WellFormed body) (hes : Silent es) :
    ¬ ParserLaw parser body g ⟨r, g', .send [chr '+'] :: es⟩ := by
  intro hlaw
  obtain ⟨e, he⟩ := (hlaw.refused hwf).1
  rw [sends_send, hes.sends] at he
  cases he

theorem not_parserLaw_of_mem {e : GdbEvent} (he : e ∈ es) (hwild : ¬ e.Tame body.length) :
    ¬ ParserLaw parser body g ⟨r, g', .send [chr '+'] :: es⟩ :=
  fun hlaw => hwild (hlaw.tame e (List.mem_cons_of_mem _ he))

theorem tame_replyEvents (n : Nat) (ts : List (List Byte)) : ∀ e ∈ replyEvents ts, e.Tame n := by
  have hstores : ∀ o, ∀ e ∈ textStores o ts, e.Tame n := by
    induction ts with
    | nil => intro o e he; cases he
    | cons t ts ih => exact fun o => List.forall_mem_cons.mpr ⟨trivial, ih _⟩
  refine List.forall_mem_append.mpr ⟨hstores 1, fun e he => ?_⟩
  simp only [frameEvents, List.mem_cons, List.not_mem_nil, or_false] at he
  rcases he with rfl | rfl | rfl | rfl | rfl <;> trivial

theorem tame_rangeEvents {data : List Byte} (h : RangeScanned data) :
    ∀ e ∈ rangeEvents data, e.Tame n := by
  rw [rangeEvents, if_pos h]
  exact List.forall_mem_cons.mpr ⟨Nat.zero_le n, fun e he => by cases he⟩

theorem tame_afterEvents {data : List Byte} {c : Byte} (h : (afterChar data c).isSome) :
    ∀ e ∈ afterEvents data c, e.Tame n := by
  rw [afterEvents, if_pos h]
  intro e he
  cases he

/-- The loads of digits that are there. -/
theorem tame_scansEvents_hex {data ws rest : List Byte} {k o : Nat} (hhex : IsHex ws)
    (hlength : ws.length = 2 * k) (hdata : data.drop o = ws ++ rest) (hn : o + 2 * k ≤ n) :
    ∀ e ∈ scansEvents data k o, e.Tame n := by
  rw [(scannedBytes_hex 0 hhex hlength hdata).2]
  intro e he
  obtain ⟨i, hi, rfl⟩ := List.mem_map.mp he
  have hik := List.mem_range.mp hi
  show o + 2 * i ≤ n
  omega

end

/-! ## The parsers -/

section

variable {cfg : GdbConfig} {u : GdbLocals} {body ds behind : List Byte} {g : Gdb}

/-- `p` never refuses a request. -/
theorem readRegister_law (hds : Seals ds (Parser.readRegister.char :: body)) :
    ParserLaw .readRegister body g (gdbPacketAnalysis cfg u
        (packetText (Parser.readRegister.char :: body) ds ++ 0 :: behind)
        (packetText (Parser.readRegister.char :: body) ds).length g) ↔
      Parser.readRegister.WellFormed body := by
  constructor
  · intro hlaw
    by_contra hwf
    by_cases hreg : atoi (cstring (body ++ 0 :: (ds ++ 0 :: behind))) < 16
    · rw [parserLaw_packet hds (readRegisterHandler_runs cfg _ g hreg)] at hlaw
      refine not_parserLaw_reply (p := [.load 0]) hwf (Silent.cons rfl silent_nil) ?_ hlaw
      rw [wordTexts_flatten]
      exact hexText_head _
    · rw [parserLaw_packet hds (readRegisterHandler_fault cfg _ g hreg)] at hlaw
      exact not_parserLaw_silent hwf (Silent.cons rfl silent_nil) hlaw
  · rintro ⟨v, hv, hlt⟩
    have hreg : atoi (cstring (body ++ 0 :: (ds ++ 0 :: behind))) < 16 := by
      have hle := atoi_le hv.hex
      have hvalue : v.toNat < 16 := hlt
      rw [hv.value] at hle
      rw [cstring_append hv.nul]
      exact lt_of_le_of_lt hle hvalue
    rw [parserLaw_packet hds (readRegisterHandler_runs cfg _ g hreg)]
    refine .of_wellFormed ⟨v, hv, hlt⟩ (List.forall_mem_cons.mpr ⟨Nat.zero_le _, ?_⟩) (by simp)
    exact tame_replyEvents _ _

/-- `m` never refuses a request. -/
theorem readMemory_law (hds : Seals ds (Parser.readMemory.char :: body)) :
    ParserLaw .readMemory body g (gdbPacketAnalysis cfg u
        (packetText (Parser.readMemory.char :: body) ds ++ 0 :: behind)
        (packetText (Parser.readMemory.char :: body) ds).length g) ↔
      Parser.readMemory.WellFormed body := by
  rw [parserLaw_packet hds (readMemory_runs u _ g)]
  constructor
  · intro hlaw
    by_contra hwf
    refine not_parserLaw_reply hwf (silent_rangeEvents _) ?_ hlaw
    rw [dumpTexts_flatten]
    exact hexText_head _
  · rintro ⟨as, ns, a, n, rfl, ha, hn⟩
    have hscanned : RangeScanned ((as ++ chr ',' :: ns) ++ 0 :: (ds ++ 0 :: behind)) := by
      have hnul : EndsNumber 0 := by decide
      have hpair := ha.scanPair_cstring hn hnul (ds ++ 0 :: behind)
      rw [← List.cons_append, ← List.append_assoc] at hpair
      rw [RangeScanned, hpair]
      exact ⟨rfl, rfl⟩
    exact .of_wellFormed ⟨as, ns, a, n, rfl, ha, hn⟩ (List.forall_mem_append.mpr
      ⟨tame_rangeEvents hscanned, tame_replyEvents _ _⟩) (by simp)

/-- `P` never refuses a request. -/
theorem writeRegister_law (hds : Seals ds (Parser.writeRegister.char :: body)) :
    ParserLaw .writeRegister body g (gdbPacketAnalysis cfg u
        (packetText (Parser.writeRegister.char :: body) ds ++ 0 :: behind)
        (packetText (Parser.writeRegister.char :: body) ds).length g) ↔
      Parser.writeRegister.WellFormed body := by
  constructor
  · intro hlaw
    by_contra hwf
    rcases writeRegisterHandler_cases cfg u g (body ++ 0 :: (ds ++ 0 :: behind)) with
      ⟨c, es, hes, hrun⟩ | ⟨fault, es, hes, hrun⟩
    · rw [parserLaw_packet hds hrun] at hlaw
      exact not_parserLaw_reply hwf hes (by decide) hlaw
    · rw [parserLaw_packet hds hrun] at hlaw
      exact not_parserLaw_silent hwf hes hlaw
  · rintro ⟨ns, ws, v, rfl, hns, hlt, hws, height⟩
    have hdata : (ns ++ chr '=' :: ws) ++ 0 :: (ds ++ 0 :: behind)
        = ns ++ chr '=' :: (ws ++ 0 :: (ds ++ 0 :: behind)) := by simp
    obtain ⟨hscanned, hafter, hdrop⟩ := hns.assignment (ws ++ 0 :: (ds ++ 0 :: behind))
    have hreg : givenReg u (ns ++ chr '=' :: (ws ++ 0 :: (ds ++ 0 :: behind))) < 16 := by
      rw [hns.givenReg]
      exact hlt
    have hrun := writeRegisterHandler_runs cfg u _ g hafter hreg
    rw [← hdata] at hrun hscanned hafter hdrop
    have hlength : (ns ++ chr '=' :: ws).length = ns.length + 1 + 2 * 4 := by
      rw [List.length_append, List.length_cons, height]
    rw [parserLaw_packet hds hrun]
    refine .of_wellFormed ⟨ns, ws, v, rfl, hns, hlt, hws, height⟩ (List.forall_mem_append.mpr
      ⟨?_, List.forall_mem_append.mpr ⟨tame_afterEvents (by rw [hafter]; rfl),
        List.forall_mem_append.mpr ⟨?_, tame_replyEvents _ _⟩⟩⟩) (by simp)
    · rw [givenEvents, hscanned]
      exact List.forall_mem_cons.mpr ⟨Nat.zero_le _, fun e he => by cases he⟩
    · exact tame_scansEvents_hex hws height hdrop (by omega)

/-! ## Restores -/

theorem slot_getElem? {i j : Nat} (hj : j < 8) : (slot body i)[j]? = body[8 * i + j]? := by
  rw [slot, List.getElem?_take_of_lt hj, List.getElem?_drop]

/-- A restore whose slots are digits is all digits. -/
theorem isHex_of_slots (hlength : body.length = 8 * 42)
    (hslots : ∀ i < 42, IsHex (slot body i)) : IsHex body := by
  intro b hb
  obtain ⟨j, hj, rfl⟩ := List.mem_iff_getElem.mp hb
  have hindex : 8 * (j / 8) + j % 8 = j := by omega
  have hmem : (slot body (j / 8))[j % 8]? = some body[j] := by
    rw [slot_getElem? (Nat.mod_lt _ (by decide)), hindex, List.getElem?_eq_getElem hj]
  exact hslots (j / 8) (by omega) _ (List.mem_of_getElem? hmem)

theorem isHex_slot (h : IsHex body) (i : Nat) : IsHex (slot body i) := fun b hb =>
  h b (List.mem_of_mem_drop (List.mem_of_mem_take hb))

/-- An 'x' is not scanned. -/
theorem unassigned_mem {i : Nat} (hi : i < 42) (hslot : slot body i = xxxxxxxx)
    (rest : List Byte) : GdbEvent.unassigned ∈ scansEvents (body ++ rest) 168 0 := by
  have hhead : body[8 * i]? = some (chr 'x') := by
    have hfirst : (slot body i)[0]? = body[8 * i + 0]? := slot_getElem? (by decide)
    rw [hslot] at hfirst
    exact hfirst.symm
  have hlt : 8 * i < body.length := (List.getElem?_eq_some_iff.mp hhead).1
  have hcons : ∃ tail, (body ++ rest).drop (8 * i) = chr 'x' :: tail := by
    refine ⟨(body ++ rest).drop (8 * i + 1), ?_⟩
    have hget : (body ++ rest)[8 * i]? = some (chr 'x') := by
      rw [List.getElem?_append_left hlt, hhead]
    obtain ⟨hlt', hget'⟩ := List.getElem?_eq_some_iff.mp hget
    rw [List.drop_eq_getElem_cons hlt', hget']
  obtain ⟨tail, htail⟩ := hcons
  have hx : chr 'x' ≠ 0 := by decide
  have hscan : scanHex 2 (cstring ((body ++ rest).drop (8 * i))) = none := by
    rw [htail, cstring_cons hx]
    exact scanHex_other (by decide) (by decide) (by decide)
  have hsplit : 168 = 4 * i + ((167 - 4 * i) + 1) := by omega
  have hoffset : 0 + 2 * (4 * i) = 8 * i := by omega
  rw [hsplit, scansEvents_add, hoffset, scansEvents, scanEvents, hscan]
  simp

/-- `G` never refuses a request. -/
theorem writeGeneralRegisters_law (hds : Seals ds (Parser.writeGeneralRegisters.char :: body)) :
    ParserLaw .writeGeneralRegisters body g (gdbPacketAnalysis cfg u
        (packetText (Parser.writeGeneralRegisters.char :: body) ds ++ 0 :: behind)
        (packetText (Parser.writeGeneralRegisters.char :: body) ds).length g) ↔
      IsHex body ∧ body.length = 8 * 42 := by
  have hrun := writeGeneralRegisters_runs cfg u (body ++ 0 :: (ds ++ 0 :: behind)) g
  have hsilent := silent_scansEvents (body ++ 0 :: (ds ++ 0 :: behind)) 168 0
  have hwild : ∀ i < 42, slot body i = xxxxxxxx →
      GdbEvent.unassigned ∈ scansEvents (body ++ 0 :: (ds ++ 0 :: behind)) 168 0 :=
    fun i hi hslot => unassigned_mem hi hslot _
  have htame : IsHex body → body.length = 8 * 42 →
      ∀ e ∈ scansEvents (body ++ 0 :: (ds ++ 0 :: behind)) 168 0, e.Tame body.length := by
    intro hhex hlength
    have hdata : (body ++ 0 :: (ds ++ 0 :: behind)).drop 0 = body ++ 0 :: (ds ++ 0 :: behind) := rfl
    exact tame_scansEvents_hex hhex hlength hdata (by rw [hlength])
  generalize scansEvents (body ++ 0 :: (ds ++ 0 :: behind)) 168 0 = es at hrun hsilent hwild htame
  generalize g.arm.generalRestored cfg u (body ++ 0 :: (ds ++ 0 :: behind)) = c at hrun
  rw [parserLaw_packet hds hrun]
  constructor
  · intro hlaw
    by_contra hbad
    by_cases hwf : Parser.writeGeneralRegisters.WellFormed body
    · obtain ⟨hlength, hslots⟩ := hwf
      have hex : ∀ i < 42, IsHex (slot body i) := fun i hi =>
        (hslots i hi).resolve_right fun hx =>
          not_parserLaw_of_mem (List.mem_append_left _ (hwild i hi hx)) (fun h => h) hlaw
      exact hbad ⟨isHex_of_slots hlength hex, hlength⟩
    · exact not_parserLaw_reply hwf hsilent (by decide) hlaw
  · rintro ⟨hhex, hlength⟩
    exact .of_wellFormed ⟨hlength, fun i _ => .inl (isHex_slot hhex i)⟩
      (List.forall_mem_append.mpr ⟨htame hhex hlength, tame_replyEvents _ _⟩) (by simp)

/-! ## Threads -/

theorem selectsThread_nul (hbody : body ≠ []) (rest : List Byte) :
    SelectsThread (body ++ 0 :: rest) ↔ SelectsThread body := by
  obtain ⟨c, body, rfl⟩ := List.exists_cons_of_ne_nil hbody
  have hdrop : ((c :: body) ++ 0 :: rest).drop 1 = body ++ 0 :: rest := rfl
  have hget : ((c :: body) ++ 0 :: rest).getD 0 0 = (c :: body).getD 0 0 := rfl
  rw [SelectsThread, SelectsThread, hdrop, hget, cstring_nul]
  rfl

/-- `H` refuses the threads it does not select. -/
theorem setThread_law (hds : Seals ds (Parser.setThread.char :: body)) :
    ParserLaw .setThread body g (gdbPacketAnalysis cfg u
        (packetText (Parser.setThread.char :: body) ds ++ 0 :: behind)
        (packetText (Parser.setThread.char :: body) ds).length g) ↔
      body ≠ [] ∧ (Parser.setThread.WellFormed body ∨ ¬ SelectsThread body) := by
  rw [parserLaw_packet hds (setThread_runs (body ++ 0 :: (ds ++ 0 :: behind)) g)]
  have hloads : Silent [.load 0, .load 1] := Silent.cons rfl (Silent.cons rfl silent_nil)
  constructor
  · intro hlaw
    have hbody : body ≠ [] := by
      rintro rfl
      have hload : GdbEvent.load 1 ∈ GdbEvent.load 0 :: GdbEvent.load 1 ::
          replyEvents [threadAnswer (([] : List Byte) ++ 0 :: (ds ++ 0 :: behind))] :=
        List.mem_cons_of_mem _ List.mem_cons_self
      exact not_parserLaw_of_mem hload (by simp [GdbEvent.Tame]) hlaw
    refine ⟨hbody, ?_⟩
    by_contra hbad
    rw [not_or, not_not] at hbad
    obtain ⟨hwf, hselects⟩ := hbad
    rw [threadAnswer, if_pos ((selectsThread_nul hbody _).mpr hselects)] at hlaw
    exact not_parserLaw_reply (p := [.load 0, .load 1]) hwf hloads (by decide) hlaw
  · rintro ⟨hbody, hor⟩
    have hone : 1 ≤ body.length := List.length_pos_of_ne_nil hbody
    have htame : ∀ e ∈ GdbEvent.load 0 :: GdbEvent.load 1 ::
        replyEvents [threadAnswer (body ++ 0 :: (ds ++ 0 :: behind))], e.Tame body.length :=
      List.forall_mem_cons.mpr ⟨Nat.zero_le _,
        List.forall_mem_cons.mpr ⟨hone, tame_replyEvents _ _⟩⟩
    refine ⟨List.forall_mem_cons.mpr ⟨trivial, htame⟩, by simp, fun hnot => ?_⟩
    have hselects := hor.resolve_left hnot
    rw [threadAnswer, if_neg fun h => hselects ((selectsThread_nul hbody _).mp h)]
    exact ⟨⟨text ['0', '1'], rfl⟩, rfl, rfl⟩

/-! ## Downloads -/

/-- The loads of a content that ends with the request. -/
theorem tame_contentEvents {data e rest : List Byte} {k m o : Nat} (h : Content k e)
    (hdata : data.drop o = e ++ rest) (hm : o + e.length ≤ m) :
    ∀ ev ∈ contentEvents data k o, ev.Tame m := by
  induction h generalizing o with
  | nil => intro ev hev; cases hev
  | @plain b k e hb _ ih =>
      have hhere := getD_of_drop hdata
      have hplain : ¬ data.getD o 0 = 0x7d := by
        rw [hhere]
        exact hb
      rw [List.length_cons] at hm
      rw [contentEvents, contentLoads, contentAt, if_neg hplain, if_neg hplain]
      exact List.forall_mem_cons.mpr ⟨show o ≤ m by omega,
        ih (drop_succ_of_drop hdata) (by omega)⟩
  | @escape b k e _ ih =>
      have hnext := drop_succ_of_drop hdata
      rw [List.length_cons, List.length_cons] at hm
      rw [contentEvents, contentLoads, contentAt, if_pos (getD_of_drop hdata),
        if_pos (getD_of_drop hdata)]
      exact List.forall_mem_cons.mpr ⟨show o ≤ m by omega,
        List.forall_mem_cons.mpr ⟨show o + 1 ≤ m by omega,
          ih (drop_succ_of_drop hnext) (by omega)⟩⟩

/-- Whatever `X` does, it first scans the range and looks for the ':'. -/
theorem writeMemoryBinary_starts (u : GdbLocals) (data : List Byte) (g : Gdb) :
    ∃ r g' es, Runs shown (writeMemoryBinary u data) g r g'
      (rangeEvents data ++ (afterEvents data (chr ':') ++ es)) := by
  by_cases haddress : (givenRange u data).1.toNat < g.mem.size
  · cases hafter : afterChar data (chr ':') with
    | none =>
        rcases writeMemoryBinary_absent u data g haddress hafter with ⟨-, hrun⟩ | hrun
        · exact ⟨_, _, _, hrun⟩
        · rw [← List.append_nil (afterEvents data (chr ':'))] at hrun
          exact ⟨_, _, _, hrun⟩
    | some o => exact ⟨_, _, _, writeMemoryBinary_runs u data g haddress hafter⟩
  · exact ⟨_, _, _, writeMemoryBinary_refused u data g haddress⟩

/-- A download that keeps to the law has both numbers and a ':'. -/
theorem scanned_of_law (hds : Seals ds (Parser.writeMemoryBinary.char :: body))
    (hlaw : ParserLaw .writeMemoryBinary body g (gdbPacketAnalysis cfg u
      (packetText (Parser.writeMemoryBinary.char :: body) ds ++ 0 :: behind)
      (packetText (Parser.writeMemoryBinary.char :: body) ds).length g)) :
    RangeScanned (body ++ 0 :: (ds ++ 0 :: behind)) ∧
      (afterChar (body ++ 0 :: (ds ++ 0 :: behind)) (chr ':')).isSome := by
  obtain ⟨r, g', es, hrun⟩ := writeMemoryBinary_starts u (body ++ 0 :: (ds ++ 0 :: behind)) g
  rw [parserLaw_packet hds hrun] at hlaw
  refine ⟨?_, ?_⟩
  · by_contra hscanned
    refine not_parserLaw_of_mem (e := .unassigned) (List.mem_append_left _ ?_) (fun h => h) hlaw
    rw [rangeEvents, if_neg hscanned]
    simp
  · by_contra hafter
    refine not_parserLaw_of_mem (e := .absent)
      (List.mem_append_right _ (List.mem_append_left _ ?_)) (fun h => h) hlaw
    rw [afterEvents, if_neg hafter]
    simp

theorem RangeScanned.pair {data : List Byte} (h : RangeScanned data) :
    ∃ a n, scanPair (cstring data) = (some a, some n) := by
  obtain ⟨a, ha⟩ := Option.isSome_iff_exists.mp h.1
  obtain ⟨n, hn⟩ := Option.isSome_iff_exists.mp h.2
  exact ⟨a, n, Prod.ext ha hn⟩

theorem rangeScanned_of_pair {data : List Byte} {a n : BitVec 32}
    (h : scanPair (cstring data) = (some a, some n)) : RangeScanned data := by
  rw [RangeScanned, h]
  exact ⟨rfl, rfl⟩

theorem isSome_afterChar (data : List Byte) (c : Byte) :
    (afterChar data c).isSome = (index data c).isSome := Option.isSome_map

/-- A download that is not refused for its address is carried out. -/
theorem download_law_wellFormed (hds : Seals ds (Parser.writeMemoryBinary.char :: body))
    (hwf : Parser.writeMemoryBinary.WellFormed body) :
    ParserLaw .writeMemoryBinary body g (gdbPacketAnalysis cfg u
      (packetText (Parser.writeMemoryBinary.char :: body) ds ++ 0 :: behind)
      (packetText (Parser.writeMemoryBinary.char :: body) ds).length g) := by
  obtain ⟨as, ns, e, a, n, rfl, ha, hn, he⟩ := id hwf
  have hdata : (as ++ chr ',' :: (ns ++ chr ':' :: e)) ++ 0 :: (ds ++ 0 :: behind)
      = as ++ chr ',' :: (ns ++ chr ':' :: (e ++ 0 :: (ds ++ 0 :: behind))) := by simp
  have hcolon : EndsNumber (chr ':') := by decide
  have hpair := ha.scanPair_cstring hn hcolon (e ++ 0 :: (ds ++ 0 :: behind))
  obtain ⟨o, hafter, hdrop⟩ := ha.content hn (e ++ 0 :: (ds ++ 0 :: behind))
  rw [← hdata] at hpair hafter hdrop
  -- the content ends where the request ends
  have hend : o + e.length ≤ (as ++ chr ',' :: (ns ++ chr ':' :: e)).length := by
    have hlength := congrArg List.length hdrop
    simp only [List.length_drop, List.length_append, List.length_cons] at hlength ⊢
    omega
  have htame : ∀ m, ∀ ev ∈ rangeEvents ((as ++ chr ',' :: (ns ++ chr ':' :: e)) ++
      0 :: (ds ++ 0 :: behind)), ev.Tame m := fun m => tame_rangeEvents (rangeScanned_of_pair hpair)
  have hrange := givenRange_of_pair hpair u
  by_cases haddress : a.toNat < g.mem.size
  · have hrun := writeMemoryBinary_runs u _ g (by rw [hrange]; exact haddress) hafter
    rw [hrange] at hrun
    rw [parserLaw_packet hds hrun]
    exact .of_wellFormed hwf (List.forall_mem_append.mpr ⟨htame _, List.forall_mem_append.mpr
      ⟨tame_afterEvents (by rw [hafter]; rfl), List.forall_mem_append.mpr
        ⟨tame_contentEvents he hdrop hend, tame_replyEvents _ _⟩⟩⟩) (by simp)
  · have hrun := writeMemoryBinary_refused u _ g (by rw [hrange]; exact haddress)
    rw [parserLaw_packet hds hrun]
    exact .of_wellFormed hwf (List.forall_mem_append.mpr ⟨htame _, List.forall_mem_append.mpr
      ⟨tame_afterEvents (by rw [hafter]; rfl), tame_replyEvents _ _⟩⟩) (by simp)

/-- `X` refuses a request for its address only. -/
theorem writeMemoryBinary_law (hds : Seals ds (Parser.writeMemoryBinary.char :: body)) :
    ParserLaw .writeMemoryBinary body g (gdbPacketAnalysis cfg u
        (packetText (Parser.writeMemoryBinary.char :: body) ds ++ 0 :: behind)
        (packetText (Parser.writeMemoryBinary.char :: body) ds).length g) ↔
      Parser.writeMemoryBinary.WellFormed body ∨ (index body (chr ':')).isSome ∧
        ∃ a n, scanPair (cstring body) = (some a, some n) ∧ g.mem.size ≤ a.toNat := by
  constructor
  · intro hlaw
    obtain ⟨hscanned, hsome⟩ := scanned_of_law hds hlaw
    obtain ⟨a, n, hpair⟩ := hscanned.pair
    have hrange := givenRange_of_pair hpair u
    by_contra hbad
    rw [not_or] at hbad
    by_cases haddress : a.toNat < g.mem.size
    · obtain ⟨o, hafter⟩ := Option.isSome_iff_exists.mp hsome
      have hrun := writeMemoryBinary_runs u _ g (by rw [hrange]; exact haddress) hafter
      rw [← List.append_assoc, ← List.append_assoc] at hrun
      rw [parserLaw_packet hds hrun] at hlaw
      exact not_parserLaw_reply hbad.1 (((silent_rangeEvents _).append
        (silent_afterEvents _ _)).append (silent_contentEvents _ _ _)) (by decide) hlaw
    · rw [isSome_afterChar, index_nul] at hsome
      rw [cstring_nul] at hpair
      exact hbad.2 ⟨hsome, a, n, hpair, Nat.not_lt.mp haddress⟩
  · rintro (hwf | ⟨hsome, a, n, hpair, haddress⟩)
    · exact download_law_wellFormed hds hwf
    · rw [← index_nul body (ds ++ 0 :: behind), ← isSome_afterChar] at hsome
      rw [← cstring_nul body (ds ++ 0 :: behind)] at hpair
      have hrange := givenRange_of_pair hpair u
      have hrun := writeMemoryBinary_refused u _ g (by rw [hrange]; exact Nat.not_lt.mpr haddress)
      have hsilent := (silent_rangeEvents (body ++ 0 :: (ds ++ 0 :: behind))).append
        (silent_afterEvents (body ++ 0 :: (ds ++ 0 :: behind)) (chr ':'))
      have hrefused := sends_reply hsilent [text ['E', '0', '2']]
      rw [List.append_assoc] at hrefused
      rw [parserLaw_packet hds hrun]
      refine ⟨List.forall_mem_cons.mpr ⟨trivial, List.forall_mem_append.mpr
        ⟨tame_rangeEvents (rangeScanned_of_pair hpair), List.forall_mem_append.mpr
          ⟨tame_afterEvents hsome, tame_replyEvents _ _⟩⟩⟩, by simp, fun _ =>
          ⟨⟨text ['0', '2'], congrArg (List.cons [chr '+']) hrefused⟩, rfl, rfl⟩⟩

end

/-! ## The exact condition -/

/-- **Which requests do not break their parser.** For each of the six commands with arguments, any
body and any values of the locals: the parser reads what is there, fails no assertion and refuses a
malformed body, exactly for the bodies it copes with. -/
theorem parserLaw_iff (cfg : GdbConfig) (u : GdbLocals) (g : Gdb) (parser : Parser)
    (body ds behind : List Byte) (hds : Seals ds (parser.char :: body)) :
    ParserLaw parser body g (gdbPacketAnalysis cfg u
        (packetText (parser.char :: body) ds ++ 0 :: behind)
        (packetText (parser.char :: body) ds).length g) ↔
      parser.Copes g.mem body := by
  cases parser with
  | readRegister => exact readRegister_law hds
  | writeRegister => exact writeRegister_law hds
  | writeGeneralRegisters => exact writeGeneralRegisters_law hds
  | writeMemoryBinary => exact writeMemoryBinary_law hds
  | readMemory => exact readMemory_law hds
  | setThread => exact setThread_law hds

theorem parserLaw_iff_pc :
    ParserLaw .readRegister (text ['f']) (idleGdb 64) (gdbPacketAnalysis littleEndian zeroLocals
        (packetText (text ['p', 'f']) (hex2 (checksum (text ['p', 'f']))) ++ [0])
        (packetText (text ['p', 'f']) (hex2 (checksum (text ['p', 'f'])))).length (idleGdb 64)) ↔
      Parser.readRegister.Copes (idleGdb 64).mem (text ['f']) :=
  parserLaw_iff littleEndian zeroLocals (idleGdb 64) .readRegister (text ['f'])
    (hex2 (checksum (text ['p', 'f']))) [] (seals_hex2 (text ['p', 'f']))

/-- `p16` fails the assertion. -/
theorem not_parserLaw_register :
    ¬ ParserLaw .readRegister (text ['1', '6']) (idleGdb 64) (gdbPacketAnalysis littleEndian
        zeroLocals (packetText (text ['p', '1', '6']) (hex2 (checksum (text ['p', '1', '6']))) ++ [0])
        (packetText (text ['p', '1', '6']) (hex2 (checksum (text ['p', '1', '6'])))).length
        (idleGdb 64)) := by
  intro hlaw
  have hreg : ¬ atoi (cstring (text ['1', '6'] ++
      0 :: (hex2 (checksum (text ['p', '1', '6'])) ++ [0]))) < 16 := by decide
  have hrun := readRegisterHandler_fault littleEndian
    (text ['1', '6'] ++ 0 :: (hex2 (checksum (text ['p', '1', '6'])) ++ [0])) (idleGdb 64) hreg
  have hfault := (seals_hex2 (text ['p', '1', '6'])).runs (u := zeroLocals) hrun
  exact hlaw.asserted hfault.value

end Armator
