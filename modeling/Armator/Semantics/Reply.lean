import Armator.Gdb.State

set_option autoImplicit false

/-! # What a reply leaves and sends

A handler builds the payload of its reply in one or more texts behind the first character of
`gdb->packet`. What `gdb_send_buffer` makes of them is the frame of the payload, which is
transmitted and stays in the buffer (`reply_runs`).
-/

namespace Armator

open Logged CString

/-! ## Events -/

/-- The events other than register traces and the switching of the trace. -/
def shown : GdbEvent → Bool
  | .arm e => visible e
  | .traceDisable => false
  | .traceEnable => false
  | _ => true

/-- The bytes of a call of `Rio_writen`. -/
def GdbEvent.sent? : GdbEvent → Option (List Byte)
  | .send bytes => some bytes
  | _ => none

/-- What is sent, call by call. -/
def sends (es : List GdbEvent) : List (List Byte) := es.filterMap GdbEvent.sent?

theorem sends_send (bytes : List Byte) (es : List GdbEvent) :
    sends (.send bytes :: es) = bytes :: sends es := rfl

@[simp] theorem sends_append (es es' : List GdbEvent) : sends (es ++ es') = sends es ++ sends es' :=
  List.filterMap_append

/-- What is observed of the shown events is not affected by the others. -/
theorem filterMap_shown {α : Type} (f : GdbEvent → Option α)
    (hf : ∀ e, shown e = false → f e = none) (es : List GdbEvent) :
    (es.filter shown).filterMap f = es.filterMap f := by
  rw [List.filterMap_filter]
  refine List.filterMap_congr fun e _ => ?_
  cases he : shown e with
  | true => rfl
  | false => exact (hf e he).symm

theorem sends_shown (es : List GdbEvent) : sends (es.filter shown) = sends es := by
  refine filterMap_shown GdbEvent.sent? (fun e he => ?_) es
  cases e <;> first | rfl | cases he

/-- What a run sends. -/
theorem sends_of_runs {α : Type} {m : GdbM α} {g g' : Gdb} {r : Except Fault α}
    {es : List GdbEvent} (h : Runs shown m g r g' es) :
    sends (m g).events = sends es := by
  rw [← sends_shown, h.events]

/-- The shown events of a run. -/
theorem mem_of_runs {α : Type} {m : GdbM α} {g g' : Gdb} {r : Except Fault α}
    {es : List GdbEvent} (h : Runs shown m g r g' es) {e : GdbEvent} (he : shown e = true) :
    e ∈ (m g).events ↔ e ∈ es := by
  rw [← h.events, List.mem_filter, he]
  simp

/-! ## Primitive steps -/

def Gdb.withArm (g : Gdb) (c : ArmCore) : Gdb := { g with arm := c }

def Gdb.withPacket (g : Gdb) (packet : List Byte) : Gdb := { g with packet := packet }

@[simp] theorem Gdb.withPacket_packet (g : Gdb) (packet : List Byte) :
    (g.withPacket packet).packet = packet := rfl

@[simp] theorem Gdb.withPacket_withPacket (g : Gdb) (packet packet' : List Byte) :
    (g.withPacket packet).withPacket packet' = g.withPacket packet' := rfl

/-- The state after texts are stored one behind the other. -/
def Gdb.pasted (g : Gdb) (o : Nat) (ts : List (List Byte)) : Gdb :=
  g.withPacket (paste g.packet o ts)

/-- The stores of texts one behind the other. -/
def textStores : Nat → List (List Byte) → List GdbEvent
  | _, [] => []
  | o, t :: ts => .store o (t.length + 1) :: textStores (o + t.length) ts

theorem textStores_append (o : Nat) (ts ts' : List (List Byte)) :
    textStores o (ts ++ ts') = textStores o ts ++ textStores (o + ts.flatten.length) ts' := by
  induction ts generalizing o with
  | nil => rfl
  | cons t ts ih =>
      rw [List.cons_append, textStores, ih, textStores, List.flatten_cons, List.length_append,
        Nat.add_assoc]
      rfl

theorem Gdb.pasted_append (g : Gdb) (o : Nat) (ts ts' : List (List Byte)) :
    g.pasted o (ts ++ ts') = (g.pasted o ts).pasted (o + ts.flatten.length) ts' := by
  simp only [pasted, paste_append, withPacket_withPacket, withPacket_packet]

section

variable (g : Gdb)

theorem gdbEmit_runs {e : GdbEvent} (he : shown e = true) :
    Runs shown (gdbEmit e) g (.ok ()) g [e] := (Runs.emit_kept g he).total

theorem gdbEmit_quiet {e : GdbEvent} (he : shown e = false) :
    Runs shown (gdbEmit e) g (.ok ()) g [] := (Runs.emit_hidden g he).total

theorem getGdb_runs : Runs shown getGdb g (.ok g) g [] := (Runs.getState _ g).total

theorem modifyGdb_runs (f : Gdb → Gdb) : Runs shown (modifyGdb f) g (.ok ()) (f g) [] :=
  (Runs.modifyState _ f g).total

theorem liftArm_eq {α : Type} (m : ArmM α) :
    liftArm m g = ⟨.ok (m g.arm).value, g.withArm (m g.arm).state, (m g.arm).events.map .arm⟩ :=
  total_eq _ g

theorem liftArm_runs {α : Type} {m : ArmM α} {a : α} {c : ArmCore} {es : List Event}
    (h : Runs visible m g.arm a c es) :
    Runs shown (liftArm m) g (.ok a) (g.withArm c) (es.map .arm) :=
  Runs.total (Runs.zoom (fun _ => rfl) h)

theorem storeChar_runs (o : Nat) (b : Byte) :
    Runs shown (storeChar o b) g (.ok ()) (g.withPacket (overwrite g.packet o [b]))
      [.store o 1] :=
  (gdbEmit_runs g rfl).okBindQuiet (modifyGdb_runs g _)

theorem storeText_runs (o : Nat) (t : List Byte) :
    Runs shown (storeText o t) g (.ok ()) (g.pasted o [t]) (textStores o [t]) :=
  (gdbEmit_runs g rfl).okBindQuiet (modifyGdb_runs g _)

theorem loadString_runs (data : List Byte) (o : Nat) :
    Runs shown (loadString data o) g (.ok (cstring (data.drop o))) g [.load o] :=
  (gdbEmit_runs g rfl).okBindQuiet (Runs.okPure _ _ g)

theorem loadChar_runs (data : List Byte) (o : Nat) :
    Runs shown (loadChar data o) g (.ok (data.getD o 0)) g [.load o] :=
  (gdbEmit_runs g rfl).okBindQuiet (Runs.okPure _ _ g)

theorem gdbTransmitPacket_runs :
    Runs shown gdbTransmitPacket g (.ok ()) g [.send (g.packet.take g.len)] :=
  (getGdb_runs g).okQuietBind (gdbEmit_runs g rfl)

end

/-! ## Frames -/

/-- A payload as it is transmitted. -/
def frame (p : List Byte) : List Byte := chr '$' :: p ++ chr '#' :: hex2 (checksum p)

/-- The state after the reply `p`. -/
def Gdb.replied (g : Gdb) (p : List Byte) : Gdb :=
  { g.withPacket (overwrite g.packet 0 (frame p ++ [0])) with len := p.length + 4 }

/-- The events of framing and transmitting `p`. -/
def frameEvents (p : List Byte) : List GdbEvent :=
  [.store 0 1, .store (1 + p.length) 1, .store (1 + p.length + 1) 3, .store (1 + p.length + 3) 1,
    .send (frame p)]

/-- The events of a reply that is built in the texts `ts`. -/
def replyEvents (ts : List (List Byte)) : List GdbEvent := textStores 1 ts ++ frameEvents ts.flatten

theorem frame_length (p : List Byte) : (frame p).length = p.length + 4 := by
  simp [frame, hex2]

/-- A frame determines its payload. -/
theorem frame_injective : Function.Injective frame := by
  intro p q heq
  have hlength : p.length = q.length := by
    have hframes := congrArg List.length heq
    rw [frame_length, frame_length] at hframes
    omega
  exact (List.append_inj (List.tail_eq_of_cons_eq heq) hlength).1

@[simp] theorem Gdb.replied_arm (g : Gdb) (p : List Byte) : (g.replied p).arm = g.arm := rfl

@[simp] theorem Gdb.replied_len (g : Gdb) (p : List Byte) : (g.replied p).len = p.length + 4 := rfl

/-- A reply is what `gdb_transmit_packet` sends from then on. -/
theorem Gdb.replied_take (g : Gdb) (p : List Byte) :
    (g.replied p).packet.take (g.replied p).len = frame p := by
  have hlength : (g.replied p).len = (frame p).length := (frame_length p).symm
  have hpacket : (g.replied p).packet = overwrite g.packet 0 (frame p ++ [0]) := rfl
  calc (g.replied p).packet.take (g.replied p).len
      = (overwrite g.packet 0 (frame p ++ [0])).take (frame p).length := by rw [hlength, hpacket]
    _ = frame p := by rw [overwrite_zero, List.append_assoc, List.take_left]

/-- A reply overwrites the texts it was built in. -/
theorem Gdb.pasted_replied (g : Gdb) {ts : List (List Byte)} (hts : ts ≠ []) :
    (g.pasted 1 ts).replied ts.flatten = g.replied ts.flatten := by
  have hdrop : (overwrite g.packet 1 (ts.flatten ++ [0])).drop (frame ts.flatten ++ [0]).length
      = g.packet.drop (frame ts.flatten ++ [0]).length := by
    have hlength : (frame ts.flatten ++ [0]).length
        = 1 + ((ts.flatten ++ [0]).length + 3) := by
      simp only [List.length_append, frame_length, List.length_singleton]
      omega
    rw [hlength, ← List.drop_drop, drop_overwrite, ← List.drop_drop, List.drop_left,
      List.drop_drop, Nat.add_assoc]
  have hpacket : overwrite (overwrite g.packet 1 (ts.flatten ++ [0])) 0 (frame ts.flatten ++ [0])
      = overwrite g.packet 0 (frame ts.flatten ++ [0]) := by
    rw [overwrite_zero, overwrite_zero, hdrop]
  simp only [replied, pasted, withPacket_withPacket, withPacket_packet, paste_eq _ _ hts, hpacket]

/-- The four stores of `gdb_send_buffer`. -/
theorem framed_packet {packet p rest : List Byte} (h : packet.drop 1 = p ++ 0 :: rest) :
    overwrite (overwrite (overwrite (overwrite packet 0 [chr '$']) (1 + p.length) [chr '#'])
        (1 + p.length + 1) (hex2 (checksum p) ++ [0])) (1 + p.length + 3) [0]
      = overwrite packet 0 (frame p ++ [0]) := by
  -- the payload and its NUL are already there
  have hfirst : overwrite packet 0 [chr '$'] = overwrite packet 0 (chr '$' :: p ++ [0]) := by
    have hdrop : packet.drop (chr '$' :: p ++ [0]).length = rest := by
      have hsplit : p ++ 0 :: rest = (p ++ [0]) ++ rest := by simp
      rw [List.cons_append, List.length_cons, Nat.add_comm _ 1, ← List.drop_drop, h, hsplit,
        List.drop_left]
    rw [overwrite_zero, overwrite_zero, List.length_singleton, h, hdrop]
    simp
  have hhash : overwrite (overwrite packet 0 (chr '$' :: p ++ [0])) (1 + p.length) [chr '#']
      = overwrite packet 0 (chr '$' :: p ++ [chr '#']) := by
    have hover := overwrite_overwrite packet 0 (chr '$' :: p) [0] [chr '#'] (by simp)
    rwa [List.length_cons, Nat.zero_add, Nat.add_comm p.length] at hover
  have hdigits : overwrite (overwrite packet 0 (chr '$' :: p ++ [chr '#'])) (1 + p.length + 1)
        (hex2 (checksum p) ++ [0])
      = overwrite packet 0 (frame p ++ [0]) := by
    have hover := overwrite_overwrite packet 0 (chr '$' :: p ++ [chr '#']) []
      (hex2 (checksum p) ++ [0]) (by simp)
    have hlength : 0 + (chr '$' :: p ++ [chr '#']).length = 1 + p.length + 1 := by
      rw [List.length_append, List.length_cons, List.length_singleton]
      omega
    have hframe : chr '$' :: p ++ [chr '#'] ++ (hex2 (checksum p) ++ [0]) = frame p ++ [0] := by
      simp [frame]
    rw [hlength, List.append_nil, hframe] at hover
    exact hover
  have hnul : overwrite (overwrite packet 0 (frame p ++ [0])) (1 + p.length + 3) [0]
      = overwrite packet 0 (frame p ++ [0]) := by
    have hover := overwrite_overwrite packet 0 (frame p) [0] [0] (by simp)
    have hlength : 0 + (frame p).length = 1 + p.length + 3 := by
      rw [frame_length]
      omega
    rwa [hlength] at hover
  rw [hfirst, hhash, hdigits, hnul]

/-- `gdb_send_buffer` frames the string behind the first character. -/
theorem gdbSendBuffer_runs {g : Gdb} {p rest : List Byte} (hp : ∀ b ∈ p, b ≠ 0)
    (h : g.packet.drop 1 = p ++ 0 :: rest) :
    Runs shown gdbSendBuffer g (.ok ()) (g.replied p) (frameEvents p) := by
  have hpayload : cstring ((overwrite g.packet 0 [chr '$']).drop 1) = p := by
    rw [overwrite_zero, List.length_singleton, List.singleton_append, List.drop_succ_cons,
      List.drop_zero, h, cstring_append hp]
  refine (storeChar_runs g 0 (chr '$')).okBind ((getGdb_runs _).okQuietBind ?_)
  dsimp only [Gdb.withPacket_packet]
  rw [hpayload]
  refine (storeChar_runs _ _ _).okBind ((storeText_runs _ _ _).okBind
    ((storeChar_runs _ _ _).okBind ((modifyGdb_runs _ _).okQuietBind ?_)))
  have hlen : 1 + p.length + 3 = p.length + 4 := by omega
  have htransmit := gdbTransmitPacket_runs (g.replied p)
  rw [Gdb.replied_take, Gdb.replied, ← framed_packet h, ← hlen] at htransmit
  rw [Gdb.replied, ← framed_packet h, ← hlen]
  exact htransmit

/-- **A reply.** The payload built in the texts `ts` is framed and sent, and stays. -/
theorem reply_runs (g : Gdb) {ts : List (List Byte)} (hts : ts ≠ [])
    (hp : ∀ b ∈ ts.flatten, b ≠ 0) :
    Runs shown gdbSendBuffer (g.pasted 1 ts) (.ok ()) (g.replied ts.flatten)
      (frameEvents ts.flatten) := by
  rw [← g.pasted_replied hts]
  have hpacket : (g.pasted 1 ts).packet.drop 1
      = ts.flatten ++ 0 :: g.packet.drop (1 + (ts.flatten ++ [0]).length) := by
    rw [Gdb.pasted, Gdb.withPacket_packet, paste_eq _ _ hts, drop_overwrite, List.append_assoc]
    rfl
  exact gdbSendBuffer_runs hp hpacket

theorem gdbSendData_runs (g : Gdb) {data : List Byte} (hdata : ∀ b ∈ data, b ≠ 0) :
    Runs shown (gdbSendData data) g (.ok ()) (g.replied data) (replyEvents [data]) := by
  have hflat : [data].flatten = data := by simp
  have hreply := reply_runs g (List.cons_ne_nil data []) (by rwa [hflat])
  refine (getGdb_runs g).okQuietBind ?_
  rw [g.buffer_eq]
  refine (storeText_runs g 1 data).okBind ?_
  rw [hflat] at hreply ⊢
  exact hreply

/-! ## Stop reasons -/

/-- The payload of the stop reply for a target exception. -/
def stopReason (exception : Int) : List Byte :=
  if exception = UNDEFINED_INSTRUCTION then text ['S', '0', '4']
  else if exception = PREFETCH_ABORT ∨ exception = DATA_ABORT then text ['S', '1', '0']
  else text ['S', '0', '5']

theorem gdbSendStopReason_runs (g : Gdb) :
    Runs shown gdbSendStopReason g (.ok ()) (g.replied (stopReason g.targetException))
      (replyEvents [stopReason g.targetException]) := by
  refine (getGdb_runs g).okQuietBind ?_
  unfold stopReason
  by_cases hundefined : g.targetException = UNDEFINED_INSTRUCTION
  · simp only [if_pos hundefined]
    exact gdbSendData_runs g (nul_text rfl)
  · by_cases habort : g.targetException = PREFETCH_ABORT ∨ g.targetException = DATA_ABORT
    · simp only [if_neg hundefined, if_pos habort]
      exact gdbSendData_runs g (nul_text rfl)
    · simp only [if_neg hundefined, if_neg habort]
      exact gdbSendData_runs g (nul_text rfl)

end Armator
