import Mathlib.Data.BitVec
import Mathlib.Data.List.TakeDrop

set_option autoImplicit false

/-! # Character blocks and the C string functions

A block of characters is a list of bytes, read from its start; a string in it ends at the first
NUL. The file has the parts of `string.h` and of `stdio.h` that a text protocol needs: `index`,
`atoi`, the conversions `%x` and `%02x` of `sscanf` and `%02x` of `sprintf`, and stores of
texts into a block (`overwrite`, `paste`).
-/

namespace CString

abbrev Byte := BitVec 8

def chr (c : Char) : Byte := BitVec.ofNat 8 c.toNat

def text (cs : List Char) : List Byte := cs.map chr

/-- The string at the start of a block. -/
def cstring (block : List Byte) : List Byte := block.takeWhile (· ≠ 0)

/-- The position of the first `c` in the string at the start of a block. -/
def index (block : List Byte) (c : Byte) : Option Nat := (cstring block).findIdx? (· = c)

/-! ## Characters -/

def isSpace (b : Byte) : Bool := b = 32 || (9 ≤ b && b ≤ 13)

def isDigit (b : Byte) : Bool := chr '0' ≤ b && b ≤ chr '9'

def isHexDigit (b : Byte) : Bool :=
  isDigit b || (chr 'a' ≤ b && b ≤ chr 'f') || (chr 'A' ≤ b && b ≤ chr 'F')

def digitValue (b : Byte) : Nat :=
  if isDigit b then b.toNat - 48
  else if chr 'a' ≤ b then b.toNat - 87
  else b.toNat - 55

/-- The lowercase digit of a number below 16. -/
def hexDigit (n : Nat) : Byte := BitVec.ofNat 8 (if n < 10 then 48 + n else 87 + n)

/-- What `sprintf` prints for `%02x` of an `unsigned char`. -/
def hex2 (b : Byte) : List Byte := [hexDigit (b.toNat / 16), hexDigit (b.toNat % 16)]

/-! ## Numbers -/

def valueIn (base : Nat) (digits : List Byte) : Nat :=
  digits.foldl (fun v b => base * v + digitValue b) 0

/-- The `unsigned long` that `strtoul` makes of a number, converted to `unsigned int`. -/
def toUnsigned (negative : Bool) (v : Nat) : BitVec 32 :=
  if 2 ^ 64 ≤ v then BitVec.allOnes 32
  else if negative then -BitVec.ofNat 32 v
  else BitVec.ofNat 32 v

/-- The `long` that `strtol` makes of a number, converted to `int`. -/
def toSigned (negative : Bool) (v : Nat) : BitVec 32 :=
  if negative then BitVec.ofInt 32 (-(min v (2 ^ 63) : Nat))
  else BitVec.ofNat 32 (min v (2 ^ 63 - 1))

def isSign (b : Byte) : Bool := b = chr '+' || b = chr '-'

/-- The optional `0x` of a hexadecimal number. -/
def startsWith0x : List Byte → Bool
  | z :: x :: _ => z = chr '0' && (x = chr 'x' || x = chr 'X')
  | _ => false

/-- The conversion `%x` of `sscanf`, of at most `width` characters: the number and what is left
to read, or a matching failure. -/
def scanHex (width : Nat) (s : List Byte) : Option (BitVec 32 × List Byte) :=
  let s := s.dropWhile isSpace
  let signs := (s.take 1).takeWhile isSign
  let s := s.drop signs.length
  let width := width - signs.length
  let radix := if 2 ≤ width ∧ startsWith0x s then 2 else 0
  let s := s.drop radix
  let digits := (s.take (width - radix)).takeWhile isHexDigit
  if digits = [] then none
  else some (toUnsigned (signs = [chr '-']) (valueIn 16 digits), s.drop digits.length)

/-- `sscanf(s, "%x", ..)` without a width: no string is longer than its own length. -/
def scanNumber (s : List Byte) : Option (BitVec 32 × List Byte) := scanHex s.length s

/-- What `sscanf(s, "%x,%x", ..)` assigns to its two variables. -/
def scanPair (s : List Byte) : Option (BitVec 32) × Option (BitVec 32) :=
  match scanNumber s with
  | none => (none, none)
  | some (first, rest) =>
    if rest.head? = some (chr ',') then (some first, (scanNumber rest.tail).map Prod.fst)
    else (some first, none)

def atoi (s : List Byte) : BitVec 32 :=
  let s := s.dropWhile isSpace
  let signs := (s.take 1).takeWhile isSign
  toSigned (signs = [chr '-']) (valueIn 10 ((s.drop signs.length).takeWhile isDigit))

/-! ## Stores -/

/-- The block after `bytes` are stored from position `o` on. -/
def overwrite (block : List Byte) (o : Nat) (bytes : List Byte) : List Byte :=
  block.takeD o 0 ++ bytes ++ block.drop (o + bytes.length)

/-- The block after texts are stored one behind the other from `o` on, each with a NUL that
the next one overwrites. -/
def paste (block : List Byte) : Nat → List (List Byte) → List Byte
  | _, [] => block
  | o, t :: ts => paste (overwrite block o (t ++ [0])) (o + t.length) ts

variable {block : List Byte} {o : Nat} {bytes bytes' : List Byte} {ts ts' : List (List Byte)}

theorem drop_overwrite (block : List Byte) (o : Nat) (bytes : List Byte) :
    (overwrite block o bytes).drop o = bytes ++ block.drop (o + bytes.length) := by
  rw [overwrite, List.append_assoc, List.drop_append_of_le_length (by simp)]
  simp

/-- A store that begins inside an earlier one and reaches to its end. -/
theorem overwrite_overwrite (block : List Byte) (o : Nat) (bytes tail bytes' : List Byte)
    (h : tail.length ≤ bytes'.length) :
    overwrite (overwrite block o (bytes ++ tail)) (o + bytes.length) bytes'
      = overwrite block o (bytes ++ bytes') := by
  have htake : (overwrite block o (bytes ++ tail)).takeD (o + bytes.length) 0
      = block.takeD o 0 ++ bytes := by
    have hlength : o + bytes.length = (block.takeD o 0 ++ bytes).length := by simp
    rw [overwrite, hlength, ← List.append_assoc, List.append_assoc _ tail, List.takeD_left]
  have hdrop : (overwrite block o (bytes ++ tail)).drop (o + bytes.length + bytes'.length)
      = block.drop (o + (bytes ++ bytes').length) := by
    have hsplit : o + bytes.length + bytes'.length
        = o + ((bytes ++ tail).length + (bytes'.length - tail.length)) := by
      rw [List.length_append]
      omega
    rw [hsplit, ← List.drop_drop, drop_overwrite, ← List.drop_drop, List.drop_left,
      List.drop_drop, List.length_append, List.length_append]
    congr 1
    omega
  rw [overwrite, htake, hdrop, List.append_assoc, overwrite]
  simp

theorem overwrite_zero (block bytes : List Byte) :
    overwrite block 0 bytes = bytes ++ block.drop bytes.length := by
  simp [overwrite]

theorem paste_append (block : List Byte) (o : Nat) (ts ts' : List (List Byte)) :
    paste block o (ts ++ ts') = paste (paste block o ts) (o + ts.flatten.length) ts' := by
  induction ts generalizing block o with
  | nil => rfl
  | cons t ts ih =>
      rw [List.cons_append, paste, ih, paste, List.flatten_cons, List.length_append,
        Nat.add_assoc]

/-- Texts stored one behind the other are one text. -/
theorem paste_eq (block : List Byte) (o : Nat) (h : ts ≠ []) :
    paste block o ts = overwrite block o (ts.flatten ++ [0]) := by
  induction ts generalizing block o with
  | nil => exact absurd rfl h
  | cons t ts ih =>
      cases ts with
      | nil => simp [paste]
      | cons t' ts =>
          have hcovers : ([0] : List Byte).length ≤ ((t' :: ts).flatten ++ [0]).length := by
            rw [List.length_append]
            exact Nat.le_add_left _ _
          have hflat : (t :: t' :: ts).flatten = t ++ (t' :: ts).flatten := List.flatten_cons
          rw [paste, ih _ _ (List.cons_ne_nil t' ts), overwrite_overwrite _ _ _ _ _ hcovers, hflat,
            List.append_assoc]

/-! ## Reading strings and digits back -/

theorem cstring_append {t rest : List Byte} (h : ∀ b ∈ t, b ≠ 0) :
    cstring (t ++ 0 :: rest) = t := by
  rw [cstring, List.takeWhile_append_of_pos (by simpa using h)]
  simp

theorem cstring_cons {b : Byte} (hb : b ≠ 0) (block : List Byte) :
    cstring (b :: block) = b :: cstring block :=
  List.takeWhile_cons_of_pos (by simpa using hb)

/-- A string ends at a NUL, if not before. -/
theorem cstring_nul (t rest : List Byte) : cstring (t ++ 0 :: rest) = cstring t := by
  induction t with
  | nil => exact List.takeWhile_cons_of_neg (by simp)
  | cons b t ih =>
      by_cases hb : b = 0
      · rw [hb, List.cons_append, cstring, cstring, List.takeWhile_cons_of_neg (by simp),
          List.takeWhile_cons_of_neg (by simp)]
      · rw [List.cons_append, cstring_cons hb, cstring_cons hb, ih]

theorem index_nul (t rest : List Byte) (c : Byte) : index (t ++ 0 :: rest) c = index t c := by
  rw [index, cstring_nul, index]

theorem digitValue_hexDigit {n : Nat} (h : n < 16) : digitValue (hexDigit n) = n := by
  have hall : ∀ n : Fin 16, digitValue (hexDigit n) = n := by decide
  exact hall ⟨n, h⟩

theorem isHexDigit_hexDigit {n : Nat} (h : n < 16) : isHexDigit (hexDigit n) = true := by
  have hall : ∀ n : Fin 16, isHexDigit (hexDigit n) = true := by decide
  exact hall ⟨n, h⟩

/-- A literal text has no NUL. -/
theorem nul_text {cs : List Char} (h : cs.all (fun c => c.toNat % 256 != 0) = true) :
    ∀ b ∈ text cs, b ≠ 0 := by
  intro b hb hzero
  obtain ⟨c, hc, rfl⟩ := List.mem_map.mp hb
  have hcode : c.toNat % 256 ≠ 0 := by simpa using List.all_eq_true.mp h c hc
  have hvalue := congrArg BitVec.toNat hzero
  rw [chr, BitVec.toNat_ofNat] at hvalue
  exact hcode hvalue

/-- What a hexadecimal digit is not. -/
structure NoDelimiter (b : Byte) : Prop where
  nul : b ≠ 0
  space : isSpace b = false
  sign : isSign b = false
  radix : b ≠ chr 'x' ∧ b ≠ chr 'X'
  frame : b ≠ chr '$' ∧ b ≠ chr '#'
  punctuation : b ≠ chr ',' ∧ b ≠ chr ':' ∧ b ≠ chr '='

theorem noDelimiter_of_isHexDigit {b : Byte} (h : isHexDigit b = true) : NoDelimiter b := by
  have hall : ∀ n : Fin 256, isHexDigit (BitVec.ofFin n) = true →
      ((BitVec.ofFin n : Byte) ≠ 0 ∧ isSpace (BitVec.ofFin n) = false ∧
        isSign (BitVec.ofFin n) = false) ∧
      ((BitVec.ofFin n : Byte) ≠ chr 'x' ∧ (BitVec.ofFin n : Byte) ≠ chr 'X') ∧
      ((BitVec.ofFin n : Byte) ≠ chr '$' ∧ (BitVec.ofFin n : Byte) ≠ chr '#') ∧
      ((BitVec.ofFin n : Byte) ≠ chr ',' ∧ (BitVec.ofFin n : Byte) ≠ chr ':' ∧
        (BitVec.ofFin n : Byte) ≠ chr '=') := by
    decide +kernel
  obtain ⟨⟨hnul, hspace, hsign⟩, hradix, hframe, hpunctuation⟩ := hall b.toFin h
  exact ⟨hnul, hspace, hsign, hradix, hframe, hpunctuation⟩

/-- Hexadecimal digits. -/
def IsHex (ds : List Byte) : Prop := ∀ b ∈ ds, isHexDigit b = true

instance (ds : List Byte) : Decidable (IsHex ds) :=
  inferInstanceAs (Decidable (∀ b ∈ ds, isHexDigit b = true))

theorem isHex_hex2 (b : Byte) : IsHex (hex2 b) := by
  have hhigh : b.toNat / 16 < 16 := by have := b.isLt; omega
  intro d hd
  rcases List.mem_pair.mp hd with rfl | rfl
  · exact isHexDigit_hexDigit hhigh
  · exact isHexDigit_hexDigit (Nat.mod_lt _ (by decide))

theorem valueIn_hex2 (b : Byte) : valueIn 16 (hex2 b) = b.toNat := by
  have hhigh : b.toNat / 16 < 16 := by have := b.isLt; omega
  rw [hex2, valueIn, List.foldl_cons, List.foldl_cons, List.foldl_nil, digitValue_hexDigit hhigh,
    digitValue_hexDigit (Nat.mod_lt _ (by decide))]
  omega

theorem digitValue_lt {b : Byte} (h : isHexDigit b = true) : digitValue b < 16 := by
  have hall : ∀ n : Fin 256, isHexDigit (BitVec.ofFin n) = true →
      digitValue (BitVec.ofFin n) < 16 := by decide +kernel
  exact hall b.toFin h

theorem valueIn_concat (base : Nat) (ds : List Byte) (d : Byte) :
    valueIn base (ds ++ [d]) = base * valueIn base ds + digitValue d := by
  rw [valueIn, List.foldl_append]
  rfl

theorem valueIn_lt {ds : List Byte} (hhex : IsHex ds) : valueIn 16 ds < 16 ^ ds.length := by
  induction ds using List.reverseRecOn with
  | nil => decide
  | append_singleton ds d ih =>
      have hd := digitValue_lt (hhex d (by simp))
      have hds := ih fun b hb => hhex b (by simp [hb])
      rw [valueIn_concat, List.length_append, List.length_singleton, pow_succ]
      omega

/-- A number is not greater in another base with more digits behind it. -/
theorem valueIn_takeWhile_le (ds : List Byte) :
    valueIn 10 (ds.takeWhile isDigit) ≤ valueIn 16 ds := by
  have hgrows : ∀ (ds : List Byte) (v : Nat),
      v ≤ ds.foldl (fun v b => 16 * v + digitValue b) v := by
    intro ds
    induction ds with
    | nil => exact fun v => Nat.le_refl v
    | cons d ds ih => exact fun v => (show v ≤ 16 * v + digitValue d by omega).trans (ih _)
  have hfold : ∀ (ds : List Byte) (v w : Nat), v ≤ w →
      (ds.takeWhile isDigit).foldl (fun v b => 10 * v + digitValue b) v
        ≤ ds.foldl (fun v b => 16 * v + digitValue b) w := by
    intro ds
    induction ds with
    | nil => exact fun v w hle => hle
    | cons d ds ih =>
        intro v w hle
        by_cases hd : isDigit d = true
        · rw [List.takeWhile_cons_of_pos hd]
          exact ih _ _ (show 10 * v + digitValue d ≤ 16 * w + digitValue d by omega)
        · rw [List.takeWhile_cons_of_neg hd]
          exact hle.trans (hgrows _ w)
  exact hfold ds 0 0 (Nat.le_refl 0)

/-- A number begins right at a character that is no space. -/
theorem dropWhile_isSpace {b : Byte} (h : isSpace b = false) (s : List Byte) :
    (b :: s).dropWhile isSpace = b :: s :=
  List.dropWhile_cons_of_neg (by rw [h]; decide)

theorem takeWhile_isSign {b : Byte} (h : isSign b = false) (s : List Byte) :
    ((b :: s).take 1).takeWhile isSign = [] :=
  List.takeWhile_cons_of_neg (by rw [h]; decide)

/-- `atoi` reads hexadecimal digits up to the first letter. -/
theorem atoi_of_isHex {ds : List Byte} (hhex : IsHex ds) :
    atoi ds = toSigned false (valueIn 10 (ds.takeWhile isDigit)) := by
  cases ds with
  | nil => rfl
  | cons d ds =>
      have hd := noDelimiter_of_isHexDigit (hhex d List.mem_cons_self)
      rw [atoi]
      simp only [dropWhile_isSpace hd.space, takeWhile_isSign hd.sign, List.length_nil,
        List.drop_zero]
      rfl

theorem toSigned_toNat (v : Nat) : (toSigned false v).toNat = min v (2 ^ 63 - 1) % 2 ^ 32 := by
  rw [toSigned, if_neg (by decide), BitVec.toNat_ofNat]

/-- `atoi` of hexadecimal digits does not exceed what they denote. -/
theorem atoi_le {ds : List Byte} (hhex : IsHex ds) : (atoi ds).toNat ≤ valueIn 16 ds := by
  calc (atoi ds).toNat = min (valueIn 10 (ds.takeWhile isDigit)) (2 ^ 63 - 1) % 2 ^ 32 := by
        rw [atoi_of_isHex hhex, toSigned_toNat]
    _ ≤ min (valueIn 10 (ds.takeWhile isDigit)) (2 ^ 63 - 1) := Nat.mod_le _ _
    _ ≤ valueIn 10 (ds.takeWhile isDigit) := Nat.min_le_left _ _
    _ ≤ valueIn 16 ds := valueIn_takeWhile_le ds

theorem valueIn_eq_zero {base : Nat} {ds : List Byte} (hbase : 0 < base) :
    valueIn base ds = 0 ↔ ∀ b ∈ ds, digitValue b = 0 := by
  induction ds using List.reverseRecOn with
  | nil => simp [valueIn]
  | append_singleton ds d ih =>
      have hscaled : base * valueIn base ds = 0 ↔ valueIn base ds = 0 := by
        rw [Nat.mul_eq_zero]
        omega
      rw [valueIn_concat, Nat.add_eq_zero_iff, hscaled, ih, List.forall_mem_append,
        List.forall_mem_singleton]

theorem isDigit_iff_digitValue {b : Byte} (h : isHexDigit b = true) :
    isDigit b = true ↔ digitValue b < 10 := by
  have hall : ∀ n : Fin 256, isHexDigit (BitVec.ofFin n) = true →
      (isDigit (BitVec.ofFin n) = true ↔ digitValue (BitVec.ofFin n) < 10) := by decide +kernel
  exact hall b.toFin h

/-- Of a number with one hexadecimal digit behind zeros `atoi` reads the digit, but no letter. -/
theorem atoi_digit {ds : List Byte} (hhex : IsHex ds) (h : valueIn 16 ds < 16) :
    (atoi ds).toNat = if valueIn 16 ds < 10 then valueIn 16 ds else 0 := by
  have hread : valueIn 10 (ds.takeWhile isDigit)
      = if valueIn 16 ds < 10 then valueIn 16 ds else 0 := by
    cases ds using List.reverseRecOn with
    | nil => rfl
    | append_singleton ds d =>
        obtain ⟨hds, hd⟩ := List.forall_mem_append.mp hhex
        rw [List.forall_mem_singleton] at hd
        rw [valueIn_concat] at h ⊢
        -- the digits in front are zeros
        have hzero : valueIn 16 ds = 0 := by omega
        have hzeros := (valueIn_eq_zero (by decide)).mp hzero
        have hdecimal : valueIn 10 ds = 0 := (valueIn_eq_zero (by decide)).mpr hzeros
        have hall : ∀ b ∈ ds, isDigit b = true := fun b hb =>
          (isDigit_iff_digitValue (hds b hb)).mpr (by rw [hzeros b hb]; decide)
        rw [hzero, Nat.mul_zero, Nat.zero_add, List.takeWhile_append_of_pos hall]
        by_cases hlow : digitValue d < 10
        · rw [List.takeWhile_cons_of_pos ((isDigit_iff_digitValue hd).mpr hlow), List.takeWhile_nil,
            valueIn_concat, hdecimal, Nat.mul_zero, Nat.zero_add, if_pos hlow]
        · rw [List.takeWhile_cons_of_neg fun hdigit => hlow ((isDigit_iff_digitValue hd).mp hdigit),
            List.append_nil, hdecimal, if_neg hlow]
  have hle : valueIn 10 (ds.takeWhile isDigit) < 2 ^ 32 := by
    rw [hread]
    split <;> omega
  rw [atoi_of_isHex hhex, toSigned_toNat, ← hread, Nat.min_eq_left (by omega),
    Nat.mod_eq_of_lt hle]

theorem startsWith0x_digits {ds rest : List Byte} (hhex : IsHex ds) (hds : ds ≠ [])
    (hstop : ∀ b, rest.head? = some b → b ≠ chr 'x' ∧ b ≠ chr 'X') :
    startsWith0x (ds ++ rest) = false := by
  have hnot {b : Byte} (hb : b ≠ chr 'x' ∧ b ≠ chr 'X') :
      decide (b = chr 'x') = false ∧ decide (b = chr 'X') = false :=
    ⟨decide_eq_false hb.1, decide_eq_false hb.2⟩
  cases ds with
  | nil => exact absurd rfl hds
  | cons d ds =>
      cases ds with
      | nil =>
          cases rest with
          | nil => rfl
          | cons r rest =>
              have hr := hnot (hstop r rfl)
              simp [startsWith0x, hr.1, hr.2]
      | cons d' ds =>
          have hd := hnot (noDelimiter_of_isHexDigit (hhex d' (by simp))).radix
          simp [startsWith0x, hd.1, hd.2]

/-- `%x` reads the digits at the start of a string, up to its width or to another character. -/
theorem scanHex_digits {width : Nat} {ds rest : List Byte} (hhex : IsHex ds) (hds : ds ≠ [])
    (hwidth : ds.length ≤ width) (hradix : width < 2 ∨ startsWith0x (ds ++ rest) = false)
    (hstop : ds.length = width ∨ ∀ b, rest.head? = some b → isHexDigit b = false) :
    scanHex width (ds ++ rest) = some (toUnsigned false (valueIn 16 ds), rest) := by
  obtain ⟨d, ds', rfl⟩ := List.exists_cons_of_ne_nil hds
  have hd := noDelimiter_of_isHexDigit (hhex d List.mem_cons_self)
  have hspaces : (d :: ds' ++ rest).dropWhile isSpace = d :: ds' ++ rest :=
    dropWhile_isSpace hd.space _
  have hsigns : ((d :: ds' ++ rest).take 1).takeWhile isSign = [] := takeWhile_isSign hd.sign _
  have hmark : ¬ (2 ≤ width ∧ startsWith0x (d :: ds' ++ rest) = true) := by
    rintro ⟨htwo, hstart⟩
    rcases hradix with hsmall | hfalse
    · omega
    · rw [hfalse] at hstart
      cases hstart
  -- past the digits the width is used up, or another character stops the scan
  have hrest : (rest.take (width - (d :: ds').length)).takeWhile isHexDigit = [] := by
    rcases hstop with hfull | hother
    · rw [hfull, Nat.sub_self, List.take_zero, List.takeWhile_nil]
    · cases rest with
      | nil => rw [List.take_nil, List.takeWhile_nil]
      | cons r rest =>
          have hr : isHexDigit r = false := hother r rfl
          cases width - (d :: ds').length with
          | zero => rw [List.take_zero, List.takeWhile_nil]
          | succ k => rw [List.take_succ_cons, List.takeWhile_cons_of_neg (by rw [hr]; decide)]
  have hdigits : ((d :: ds' ++ rest).take width).takeWhile isHexDigit = d :: ds' := by
    rw [List.take_append, List.take_of_length_le hwidth, List.takeWhile_append_of_pos hhex, hrest,
      List.append_nil]
  rw [scanHex]
  simp only [hspaces, hsigns, List.length_nil, List.drop_zero, Nat.sub_zero, if_neg hmark, hdigits]
  rw [if_neg hds, List.drop_left]
  rfl

/-- `%02x` reads two digits, whatever follows. -/
theorem scanHex_two {h₁ h₂ : Byte} (rest : List Byte) (hhex : IsHex [h₁, h₂]) :
    scanHex 2 (h₁ :: h₂ :: rest) = some (toUnsigned false (valueIn 16 [h₁, h₂]), rest) := by
  have hradix : startsWith0x ([h₁, h₂] ++ rest) = false := by
    have hne := (noDelimiter_of_isHexDigit (hhex h₂ (by simp))).radix
    simp [startsWith0x, hne.1, hne.2]
  have hdigits : scanHex 2 ([h₁, h₂] ++ rest)
      = some (toUnsigned false (valueIn 16 [h₁, h₂]), rest) :=
    scanHex_digits hhex (by simp) (by simp) (.inr hradix) (.inl rfl)
  exact hdigits

/-- A number in front of a character that no number contains. -/
theorem scanNumber_digits {ds rest : List Byte} (hhex : IsHex ds) (hds : ds ≠ [])
    (hstop : ∀ b, rest.head? = some b →
      isHexDigit b = false ∧ b ≠ chr 'x' ∧ b ≠ chr 'X') :
    scanNumber (ds ++ rest) = some (toUnsigned false (valueIn 16 ds), rest) :=
  scanHex_digits hhex hds (by simp)
    (.inr (startsWith0x_digits hhex hds fun b hb => (hstop b hb).2))
    (.inr fun b hb => (hstop b hb).1)

/-- A character that begins no number makes `%x` fail. -/
theorem scanHex_other {width : Nat} {b : Byte} {rest : List Byte} (hspace : isSpace b = false)
    (hsign : isSign b = false) (hhex : isHexDigit b = false) :
    scanHex width (b :: rest) = none := by
  have hmark : ¬ (2 ≤ width ∧ startsWith0x (b :: rest) = true) := by
    rintro ⟨-, hstart⟩
    have hzero : b = chr '0' := by
      cases rest with
      | nil => cases hstart
      | cons x rest =>
          simp only [startsWith0x, Bool.and_eq_true, decide_eq_true_eq] at hstart
          exact hstart.1
    rw [hzero] at hhex
    exact absurd hhex (by decide)
  have hdigits : ((b :: rest).take width).takeWhile isHexDigit = [] := by
    cases width with
    | zero => rw [List.take_zero, List.takeWhile_nil]
    | succ k => rw [List.take_succ_cons, List.takeWhile_cons_of_neg (by rw [hhex]; decide)]
  rw [scanHex]
  simp only [dropWhile_isSpace hspace, takeWhile_isSign hsign, List.length_nil, List.drop_zero,
    Nat.sub_zero, if_neg hmark, hdigits]
  rfl

theorem toUnsigned_of_lt {v : Nat} (h : v < 2 ^ 32) : (toUnsigned false v).toNat = v := by
  rw [toUnsigned, if_neg (by omega), if_neg (by decide), BitVec.toNat_ofNat, Nat.mod_eq_of_lt h]

theorem toUnsigned_setWidth (v : Nat) (h : v < 2 ^ 32) :
    (toUnsigned false v).setWidth 8 = BitVec.ofNat 8 v := by
  apply BitVec.eq_of_toNat_eq
  rw [BitVec.toNat_setWidth, toUnsigned_of_lt h, BitVec.toNat_ofNat]

end CString
