import Armator.Semantics.Tokens

set_option autoImplicit false

/-! # The arguments of a request

What the scans of the handlers find in a request that is written as it should be: numbers as
digits, an address and a size with a ',' in between, the content of `X` with its escapes.
-/

namespace Armator

open Logged CString

/-! ## Numbers -/

/-- `ds` is a way to write `v`. -/
structure Digits (ds : List Byte) (v : BitVec 32) : Prop where
  hex : IsHex ds
  nonempty : ds ≠ []
  value : valueIn 16 ds = v.toNat

theorem Digits.toUnsigned {ds : List Byte} {v : BitVec 32} (h : Digits ds v) :
    toUnsigned false (valueIn 16 ds) = v := by
  apply BitVec.eq_of_toNat_eq
  have hlt : valueIn 16 ds < 2 ^ 32 := by
    rw [h.value]
    exact v.isLt
  rw [toUnsigned_of_lt hlt, h.value]

/-- A number below 16 is written with one digit. -/
theorem digits_hexDigit {v : BitVec 32} (hv : v < 16) : Digits [hexDigit v.toNat] v := by
  have hlt : v.toNat < 16 := hv
  refine ⟨fun b hb => ?_, List.cons_ne_nil _ _, ?_⟩
  · rw [List.mem_singleton.mp hb]
    exact isHexDigit_hexDigit hlt
  · calc valueIn 16 [hexDigit v.toNat] = 16 * 0 + digitValue (hexDigit v.toNat) := rfl
      _ = v.toNat := by rw [digitValue_hexDigit hlt, Nat.mul_zero, Nat.zero_add]

/-- A character that ends a number. -/
def EndsNumber (b : Byte) : Prop := isHexDigit b = false ∧ b ≠ chr 'x' ∧ b ≠ chr 'X'

instance (b : Byte) : Decidable (EndsNumber b) := inferInstanceAs (Decidable (_ ∧ _))

theorem endsNumber_head {c : Byte} {rest : List Byte} (hc : EndsNumber c) :
    ∀ b, (c :: rest).head? = some b → EndsNumber b := by
  intro b hb
  cases hb
  exact hc

section

variable {ds ds' rest : List Byte} {v v' : BitVec 32}

theorem Digits.scanNumber (h : Digits ds v) (hrest : ∀ b, rest.head? = some b → EndsNumber b) :
    CString.scanNumber (ds ++ rest) = some (v, rest) := by
  rw [scanNumber_digits h.hex h.nonempty hrest, h.toUnsigned]

theorem Digits.scanPair (h : Digits ds v) (h' : Digits ds' v')
    (hrest : ∀ b, rest.head? = some b → EndsNumber b) :
    CString.scanPair (ds ++ chr ',' :: (ds' ++ rest)) = (some v, some v') := by
  have hcomma : EndsNumber (chr ',') := by decide
  have hhead : (chr ',' :: (ds' ++ rest)).head? = some (chr ',') := rfl
  rw [CString.scanPair, h.scanNumber (endsNumber_head hcomma)]
  dsimp only
  rw [if_pos hhead, List.tail_cons, h'.scanNumber hrest]
  rfl

theorem cstring_append_of_nul (h : ∀ b ∈ ds, b ≠ 0) (rest : List Byte) :
    cstring (ds ++ rest) = ds ++ cstring rest :=
  List.takeWhile_append_of_pos (by simpa using h)

theorem head?_cstring {b : Byte} (h : (cstring rest).head? = some b) : rest.head? = some b := by
  cases rest with
  | nil => cases h
  | cons c rest =>
      by_cases hc : c = 0
      · rw [hc, cstring, List.takeWhile_cons_of_neg (by simp)] at h
        cases h
      · rw [cstring_cons hc] at h
        exact h

theorem Digits.nul (h : Digits ds v) : ∀ b ∈ ds, b ≠ 0 := isHex_nul h.hex

theorem Digits.body (h : Digits ds v) : ∀ b ∈ ds, b ≠ chr '$' ∧ b ≠ chr '#' := fun b hb =>
  (noDelimiter_of_isHexDigit (h.hex b hb)).frame

/-- The text `ds,ds'` at the start of a request, up to a character that ends it. -/
theorem Digits.scanPair_cstring (h : Digits ds v) (h' : Digits ds' v') {c : Byte}
    (hc : EndsNumber c) (rest : List Byte) :
    CString.scanPair (cstring (ds ++ chr ',' :: (ds' ++ c :: rest))) = (some v, some v') := by
  have hcomma : chr ',' ≠ 0 := by decide
  rw [cstring_append_of_nul h.nul, cstring_cons hcomma, cstring_append_of_nul h'.nul]
  exact h.scanPair h' fun b hb => endsNumber_head hc b (head?_cstring hb)

theorem givenRange_of_pair {data : List Byte} {a n : BitVec 32}
    (h : CString.scanPair (cstring data) = (some a, some n)) (u : GdbLocals) :
    givenRange u data = (a, n) := by
  rw [givenRange, h]
  rfl

theorem Digits.givenRange (u : GdbLocals) (h : Digits ds v) (h' : Digits ds' v') {c : Byte}
    (hc : EndsNumber c) (rest : List Byte) :
    givenRange u (ds ++ chr ',' :: (ds' ++ c :: rest)) = (v, v') := by
  exact givenRange_of_pair (h.scanPair_cstring h' hc rest) u

/-- The first `c` of a request, behind characters that are not `c`. -/
theorem index_append {c : Byte} (hc : c ≠ 0) (h : ∀ b ∈ ds, b ≠ 0 ∧ b ≠ c) (rest : List Byte) :
    index (ds ++ c :: rest) c = some ds.length := by
  rw [index, cstring_append_of_nul fun b hb => (h b hb).1, cstring_cons hc, List.findIdx?_append,
    List.findIdx?_eq_none_iff.mpr fun b hb => by simpa using (h b hb).2, List.findIdx?_cons,
    if_pos (by simp)]
  simp

/-- The number of `P` ends at the '=', and its value begins behind it. -/
theorem Digits.assignment (h : Digits ds v) (rest : List Byte) :
    CString.scanNumber (cstring (ds ++ chr '=' :: rest)) = some (v, chr '=' :: cstring rest) ∧
      afterChar (ds ++ chr '=' :: rest) (chr '=') = some (ds.length + 1) ∧
      (ds ++ chr '=' :: rest).drop (ds.length + 1) = rest := by
  have hequals : chr '=' ≠ 0 := by decide
  have hstop : EndsNumber (chr '=') := by decide
  have hfront : ∀ b ∈ ds, b ≠ 0 ∧ b ≠ chr '=' := fun b hb =>
    ⟨h.nul b hb, (noDelimiter_of_isHexDigit (h.hex b hb)).punctuation.2.2⟩
  refine ⟨?_, ?_, ?_⟩
  · rw [cstring_append_of_nul h.nul, cstring_cons hequals, h.scanNumber (endsNumber_head hstop)]
  · rw [afterChar, index_append hequals hfront]
    rfl
  · rw [← List.drop_drop, List.drop_left]
    rfl

theorem Digits.givenReg (u : GdbLocals) (h : Digits ds v) (rest : List Byte) :
    givenReg u (ds ++ chr '=' :: rest) = v := by
  rw [Armator.givenReg, (h.assignment rest).1]

/-- The content of `X` begins behind the first ':'. -/
theorem Digits.content (h : Digits ds v) (h' : Digits ds' v') (rest : List Byte) :
    ∃ o, afterChar (ds ++ chr ',' :: (ds' ++ chr ':' :: rest)) (chr ':') = some o ∧
      (ds ++ chr ',' :: (ds' ++ chr ':' :: rest)).drop o = rest := by
  have hsplit : ds ++ chr ',' :: (ds' ++ chr ':' :: rest)
      = (ds ++ chr ',' :: ds') ++ chr ':' :: rest := by simp
  have hfront : ∀ b ∈ ds ++ chr ',' :: ds', b ≠ 0 ∧ b ≠ chr ':' := by
    have hdigit {b : Byte} (hb : isHexDigit b = true) : b ≠ 0 ∧ b ≠ chr ':' :=
      ⟨(noDelimiter_of_isHexDigit hb).nul, (noDelimiter_of_isHexDigit hb).punctuation.2.1⟩
    intro b hb
    rcases List.mem_append.mp hb with hds | hb
    · exact hdigit (h.hex b hds)
    · rcases List.mem_cons.mp hb with rfl | hds'
      · decide
      · exact hdigit (h'.hex b hds')
  refine ⟨(ds ++ chr ',' :: ds').length + 1, ?_, ?_⟩
  · rw [hsplit, afterChar, index_append (by decide) hfront]
    rfl
  · rw [hsplit, ← List.drop_drop, List.drop_left]
    rfl

end

/-! ## Contents -/

/-- `e` is a way to write the bytes `d` in a request: the delimiters and the escape character
itself are escaped, `*` may be. -/
inductive Escaped : List (BitVec 8) → List Byte → Prop
  | nil : Escaped [] []
  | plain {b : Byte} {d e : List Byte} (hb : b ≠ 0x23 ∧ b ≠ 0x24 ∧ b ≠ 0x7d)
      (rest : Escaped d e) : Escaped (b :: d) (b :: e)
  | escape {b : Byte} {d e : List Byte} (hb : b = 0x23 ∨ b = 0x24 ∨ b = 0x7d ∨ b = 0x2a)
      (rest : Escaped d e) : Escaped (b :: d) (0x7d :: (b ^^^ 0x20) :: e)

/-- `e` is read as the bytes `d`, whichever of them are escaped. -/
inductive Unescapes : List (BitVec 8) → List Byte → Prop
  | nil : Unescapes [] []
  | plain {b : Byte} {d e : List Byte} (hb : b ≠ 0x7d) (rest : Unescapes d e) :
      Unescapes (b :: d) (b :: e)
  | escape {b : Byte} {d e : List Byte} (rest : Unescapes d e) :
      Unescapes ((b ^^^ 0x20) :: d) (0x7d :: b :: e)

section

variable {data d e rest : List Byte} {o : Nat}

theorem getD_of_drop {b : Byte} (h : data.drop o = b :: rest) : data.getD o 0 = b := by
  have hget : data[o]? = some b := by
    rw [← List.head?_drop, h]
    rfl
  rw [List.getD_eq_getElem?_getD, hget]
  rfl

theorem drop_succ_of_drop {b : Byte} (h : data.drop o = b :: rest) : data.drop (o + 1) = rest := by
  rw [← List.drop_drop, h]
  rfl

/-- The bytes that are written are read. -/
theorem contents_unescapes (h : Unescapes d e) (hdata : data.drop o = e ++ rest) :
    contents data d.length o = d := by
  induction h generalizing o with
  | nil => rfl
  | @plain b d e hb _ ih =>
      have hhere := getD_of_drop hdata
      rw [List.length_cons, contents, contentAt, if_neg (by rw [hhere]; exact hb), hhere,
        ih (drop_succ_of_drop hdata)]
  | @escape b d e _ ih =>
      have hnext := drop_succ_of_drop hdata
      rw [List.length_cons, contents, contentAt, if_pos (getD_of_drop hdata), getD_of_drop hnext,
        ih (drop_succ_of_drop hnext)]

theorem Escaped.unescapes (h : Escaped d e) : Unescapes d e := by
  induction h with
  | nil => exact .nil
  | plain hb _ ih => exact .plain hb.2.2 ih
  | @escape b d e _ _ ih =>
      have hback : b ^^^ 0x20 ^^^ 0x20 = b := by
        rw [BitVec.xor_assoc, BitVec.xor_self, BitVec.xor_zero]
      have hescape := Unescapes.escape (b := b ^^^ 0x20) ih
      rwa [hback] at hescape

/-- No delimiter is left. -/
theorem Escaped.body (h : Escaped d e) : ∀ b ∈ e, b ≠ chr '$' ∧ b ≠ chr '#' := by
  induction h with
  | nil => intro b hb; cases hb
  | plain hb _ ih => exact List.forall_mem_cons.mpr ⟨⟨hb.2.1, hb.1⟩, ih⟩
  | escape hb _ ih =>
      refine List.forall_mem_cons.mpr ⟨by decide, List.forall_mem_cons.mpr ⟨?_, ih⟩⟩
      rcases hb with rfl | rfl | rfl | rfl <;> decide

end

end Armator
