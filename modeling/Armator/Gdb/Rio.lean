import Armator.Lib.CString

set_option autoImplicit false

/-! # Robust writing (`csapp.c`)

What the stub sends goes through `Rio_writen`, which calls `write` until all bytes are taken.
What `write` does is given call by call. Whatever it does, a beginning of the bytes is taken
(`transmit_beginning`), and all of them if it fails for no other reason than a signal and takes
often enough (`transmit_whole`).
-/

namespace Armator

open CString

/-! ## The program -/

/-- `errno` after a call that a signal has interrupted. -/
def EINTR : Int := 4

/-- What a call of `write` does. -/
inductive WriteCall
  /-- it takes `n + 1` bytes, or all there are -/
  | takes (n : Nat)
  /-- it returns 0; `errno` is what it was -/
  | takesNone (errno : Int)
  | fails (errno : Int)
deriving DecidableEq

namespace WriteCall

/-- The value of `write(fd, bufp, nleft)`. -/
def returns (nleft : Nat) : WriteCall → Int
  | takes n => (min (n + 1) nleft : Nat)
  | takesNone _ => 0
  | fails _ => -1

/-- `errno` behind it, where it is looked at. -/
def errno : WriteCall → Int
  | takes _ => 0
  | takesNone errno => errno
  | fails errno => errno

/-- The call takes bytes. -/
def isTakes : WriteCall → Bool
  | takes _ => true
  | _ => false

end WriteCall

/-- What a loop of calls has come to: the bytes that were taken, its result, and the calls that
are still to be made. -/
structure Written where
  taken : List Byte
  result : Int
  calls : List WriteCall

/-- `rio_writen`, from `bufp` on; `none` if a call of `write` does not return. -/
def rioWriten (n : Nat) : List WriteCall → List Byte → Option Written
  | calls, [] => some ⟨[], n, calls⟩
  | [], _ :: _ => none
  | call :: calls, b :: bs => do
    let bufp := b :: bs
    let nwritten := call.returns bufp.length
    if nwritten ≤ 0 then
      if call.errno = EINTR then
        rioWriten n calls bufp
      else
        return ⟨[], -1, calls⟩
    else
      let w ← rioWriten n calls (bufp.drop nwritten.toNat)
      return { w with taken := bufp.take nwritten.toNat ++ w.taken }

/-- The calls of `Rio_writen`, one after the other, up to one that ends the program: the bytes
that were taken, and whether it goes on. -/
def transmit : List WriteCall → List (List Byte) → Option (List Byte × Bool)
  | _, [] => some ([], true)
  | calls, usrbuf :: rest => do
    let w ← rioWriten usrbuf.length calls usrbuf
    if w.result ≠ usrbuf.length then
      return (w.taken, false)
    else
      let (bytes, ok) ← transmit w.calls rest
      return (w.taken ++ bytes, ok)

/-! ## What is taken -/

/-- The call is made again, or goes on. -/
def WriteCall.Resumed (call : WriteCall) : Prop := call.isTakes = true ∨ call.errno = EINTR

/-- `bytes` are those of some texts, and of the next one not all. -/
def CutOff (texts : List (List Byte)) (bytes : List Byte) : Prop :=
  ∃ front t rest q b more, texts = front ++ t :: rest ∧ bytes = front.flatten ++ q ∧
    t = q ++ b :: more

section

variable {n : Nat} {call : WriteCall} {calls : List WriteCall} {bufp bytes : List Byte}
  {texts : List (List Byte)} {w : Written} {ok : Bool}

theorem rioWriten_nil (n : Nat) (calls : List WriteCall) :
    rioWriten n calls [] = some ⟨[], n, calls⟩ := by
  cases calls <;> rfl

/-- A call that takes `m` bytes, at least one. -/
theorem rioWriten_takes {m : Nat} (hm : call.returns bufp.length = m) (hpos : 0 < m)
    (hne : bufp ≠ []) :
    rioWriten n (call :: calls) bufp
      = (rioWriten n calls (bufp.drop m)).bind fun w =>
          some { w with taken := bufp.take m ++ w.taken } := by
  obtain ⟨b, bs, rfl⟩ := List.exists_cons_of_ne_nil hne
  rw [rioWriten]
  show (if call.returns (b :: bs).length ≤ 0 then _ else _) = _
  rw [hm, if_neg (by omega), Int.toNat_natCast]
  rfl

/-- A call that takes none. -/
theorem rioWriten_stops (hstops : call.isTakes = false) (hne : bufp ≠ []) :
    rioWriten n (call :: calls) bufp
      = if call.errno = EINTR then rioWriten n calls bufp else some ⟨[], -1, calls⟩ := by
  obtain ⟨b, bs, rfl⟩ := List.exists_cons_of_ne_nil hne
  cases call with
  | takes k => cases hstops
  | takesNone e => rfl
  | fails e => rfl

/-- What a taking call returns. -/
theorem WriteCall.returns_takes (htakes : call.isTakes = true) (hne : bufp ≠ []) :
    ∃ m : Nat, call.returns bufp.length = m ∧ 0 < m ∧ m ≤ bufp.length := by
  have hlength := List.length_pos_of_ne_nil hne
  cases call with
  | takes k => exact ⟨min (k + 1) bufp.length, rfl, by omega, by omega⟩
  | takesNone e => cases htakes
  | fails e => cases htakes

/-- All bytes are taken, or the result is -1 and at least one is not. -/
theorem rioWriten_beginning (h : rioWriten n calls bufp = some w) :
    (w.result = n ∧ w.taken = bufp) ∨
      (w.result = -1 ∧ ∃ b more, bufp = w.taken ++ b :: more) := by
  induction calls generalizing bufp w with
  | nil =>
      cases bufp with
      | nil =>
          cases h
          exact .inl ⟨rfl, rfl⟩
      | cons b bs => cases h
  | cons call calls ih =>
      by_cases hne : bufp = []
      · rw [hne, rioWriten_nil] at h
        cases h
        exact .inl ⟨rfl, hne.symm⟩
      · cases htakes : call.isTakes with
        | true =>
            obtain ⟨m, hm, hpos, -⟩ := WriteCall.returns_takes htakes hne
            rw [rioWriten_takes hm hpos hne] at h
            obtain ⟨w', hw', heq⟩ := Option.bind_eq_some_iff.mp h
            cases heq
            rcases ih hw' with ⟨hresult, htaken⟩ | ⟨hresult, b, more, hrest⟩
            · exact .inl ⟨hresult, by rw [htaken, List.take_append_drop]⟩
            · refine .inr ⟨hresult, b, more, ?_⟩
              rw [List.append_assoc, ← hrest, List.take_append_drop]
        | false =>
            rw [rioWriten_stops htakes hne] at h
            split at h
            · exact ih h
            · cases h
              obtain ⟨b, bs, rfl⟩ := List.exists_cons_of_ne_nil hne
              exact .inr ⟨rfl, b, bs, rfl⟩

/-- **A beginning of what is sent is taken**, and it is all of it if the program goes on. -/
theorem transmit_beginning (h : transmit calls texts = some (bytes, ok)) :
    (ok = true ∧ bytes = texts.flatten) ∨ (ok = false ∧ CutOff texts bytes) := by
  induction texts generalizing calls bytes with
  | nil =>
      cases h
      exact .inl ⟨rfl, rfl⟩
  | cons t texts ih =>
      rw [transmit] at h
      obtain ⟨w, hw, h⟩ := Option.bind_eq_some_iff.mp h
      rcases rioWriten_beginning hw with ⟨hresult, htaken⟩ | ⟨hresult, b, more, hcut⟩
      · rw [if_neg (not_not_intro hresult)] at h
        obtain ⟨⟨bytes', ok'⟩, hrest, heq⟩ := Option.bind_eq_some_iff.mp h
        cases heq
        rw [htaken]
        rcases ih hrest with ⟨hok, rfl⟩ | ⟨hok, front, t', rest, q, b, more, rfl, rfl, ht'⟩
        · exact .inl ⟨hok, rfl⟩
        · refine .inr ⟨hok, t :: front, t', rest, q, b, more, rfl, ?_, ht'⟩
          rw [List.flatten_cons, List.append_assoc]
      · rw [if_pos (by omega)] at h
        cases h
        exact .inr ⟨rfl, [], t, texts, w.taken, b, more, rfl, rfl, hcut⟩

/-- Calls that go on take all bytes, if there are enough of them; they use up at most one for
each byte. -/
theorem rioWriten_whole (hresumed : ∀ call ∈ calls, call.Resumed)
    (henough : bufp.length ≤ calls.countP WriteCall.isTakes) :
    ∃ rest, rioWriten n calls bufp = some ⟨bufp, n, rest⟩ ∧ rest ⊆ calls ∧
      calls.countP WriteCall.isTakes ≤ rest.countP WriteCall.isTakes + bufp.length := by
  induction calls generalizing bufp with
  | nil =>
      rw [List.eq_nil_of_length_eq_zero (Nat.le_zero.mp henough)]
      exact ⟨[], rfl, List.Subset.refl _, Nat.le_refl _⟩
  | cons call calls ih =>
      obtain ⟨hcall, hcalls⟩ := List.forall_mem_cons.mp hresumed
      by_cases hne : bufp = []
      · rw [hne, rioWriten_nil]
        exact ⟨call :: calls, rfl, List.Subset.refl _, Nat.le_refl _⟩
      · cases htakes : call.isTakes with
        | true =>
            obtain ⟨m, hm, hpos, hle⟩ := WriteCall.returns_takes htakes hne
            rw [List.countP_cons_of_pos htakes] at henough ⊢
            have hfewer : (bufp.drop m).length ≤ calls.countP WriteCall.isTakes := by
              rw [List.length_drop]
              omega
            obtain ⟨rest, hrest, hsub, hcount⟩ := ih hcalls hfewer
            refine ⟨rest, ?_, List.subset_cons_of_subset _ hsub, ?_⟩
            · rw [rioWriten_takes hm hpos hne, hrest, Option.bind_some, List.take_append_drop]
            · rw [List.length_drop] at hcount
              omega
        | false =>
            have hnot : ¬ call.isTakes = true := by simp [htakes]
            rw [List.countP_cons_of_neg hnot] at henough ⊢
            obtain ⟨rest, hrest, hsub, hcount⟩ := ih hcalls henough
            refine ⟨rest, ?_, List.subset_cons_of_subset _ hsub, hcount⟩
            rw [rioWriten_stops htakes hne, if_pos (hcall.resolve_left hnot), hrest]

/-- **Nothing is lost to signals and short counts.** -/
theorem transmit_whole (hresumed : ∀ call ∈ calls, call.Resumed)
    (henough : texts.flatten.length ≤ calls.countP WriteCall.isTakes) :
    transmit calls texts = some (texts.flatten, true) := by
  induction texts generalizing calls with
  | nil => rfl
  | cons t texts ih =>
      rw [List.flatten_cons, List.length_append] at henough
      have hfront : t.length ≤ calls.countP WriteCall.isTakes := by omega
      obtain ⟨rest, hwritten, hsub, hcount⟩ := rioWriten_whole (n := t.length) hresumed hfront
      have hrest := ih (fun call hcall => hresumed call (hsub hcall)) (by omega)
      rw [transmit, hwritten]
      show (if ((t.length : Int)) ≠ t.length then _ else _) = _
      rw [if_neg (not_not_intro rfl), hrest]
      rfl

end

end Armator
