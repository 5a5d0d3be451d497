import Armator.Gdb.Codec
import Armator.Semantics.Reply

set_option autoImplicit false

/-! # The text of a word

`write_uint32` prints the bytes of a word in the byte order of the target, whatever the order
of the host, and `read_uint32` reads them back in that order.
-/

namespace Armator

open Logged CString

/-! ## Words and bytes -/

/-- The bytes of a word in the given order. -/
def wordBytes (bigEndian : Bool) (v : BitVec 32) : List (BitVec 8) :=
  inOrder bigEndian (split 4 v.toNat)

/-- The word whose bytes these are in the given order. -/
def wordOf (bigEndian : Bool) (bytes : List (BitVec 8)) : BitVec 32 :=
  BitVec.ofNat 32 (join (inOrder bigEndian bytes))

theorem wordBytes_length (bigEndian : Bool) (v : BitVec 32) :
    (wordBytes bigEndian v).length = 4 := by
  rw [wordBytes, inOrder_length, split_length]

theorem wordOf_wordBytes (bigEndian : Bool) (v : BitVec 32) :
    wordOf bigEndian (wordBytes bigEndian v) = v := by
  have hlt : v.toNat < 256 ^ 4 := v.isLt
  calc wordOf bigEndian (wordBytes bigEndian v)
      = BitVec.ofNat 32 (join (split 4 v.toNat)) := by rw [wordOf, wordBytes, inOrder_inOrder]
    _ = BitVec.ofNat 32 v.toNat := by rw [join_split, Nat.mod_eq_of_lt hlt]
    _ = v := by simp

theorem wordBytes_wordOf (bigEndian : Bool) {bytes : List (BitVec 8)} (h : bytes.length = 4) :
    wordBytes bigEndian (wordOf bigEndian bytes) = bytes := by
  have hlength : (inOrder bigEndian bytes).length = 4 := by rw [inOrder_length, h]
  have hlt : join (inOrder bigEndian bytes) < 2 ^ 32 := by
    have := join_lt (inOrder bigEndian bytes)
    rw [hlength] at this
    exact this
  have hsplit := split_join (inOrder bigEndian bytes)
  rw [hlength] at hsplit
  rw [wordBytes, wordOf, BitVec.toNat_ofNat, Nat.mod_eq_of_lt hlt, hsplit, inOrder_inOrder]

/-! ## Bytes and digits -/

/-- The lowercase digits of bytes. -/
def hexText (bytes : List (BitVec 8)) : List Byte := bytes.flatMap hex2

/-- The bytes that pairs of digits denote. -/
def hexBytes : List Byte → List (BitVec 8)
  | h₁ :: h₂ :: ds => BitVec.ofNat 8 (valueIn 16 [h₁, h₂]) :: hexBytes ds
  | _ => []

/-- The digits of a word. -/
def wordText (cfg : GdbConfig) (v : BitVec 32) : List Byte :=
  hexText (wordBytes cfg.targetBigEndian v)

@[simp] theorem hexText_nil : hexText [] = [] := rfl

theorem hexText_cons (b : BitVec 8) (bytes : List (BitVec 8)) :
    hexText (b :: bytes) = hex2 b ++ hexText bytes := List.flatMap_cons

theorem hexText_length (bytes : List (BitVec 8)) : (hexText bytes).length = 2 * bytes.length := by
  induction bytes with
  | nil => rfl
  | cons b bytes ih =>
      have htwo : (hex2 b).length = 2 := rfl
      calc (hexText (b :: bytes)).length = (hex2 b).length + (hexText bytes).length := by
            rw [hexText_cons, List.length_append]
        _ = 2 + 2 * bytes.length := by rw [htwo, ih]
        _ = 2 * (b :: bytes).length := by rw [List.length_cons]; ring

theorem isHex_hexText (bytes : List (BitVec 8)) : IsHex (hexText bytes) := by
  intro d hd
  obtain ⟨b, -, hb⟩ := List.mem_flatMap.mp hd
  exact isHex_hex2 b d hb

/-- The digits that are printed are in lower case. -/
theorem hexText_head (bytes : List (BitVec 8)) : (hexText bytes).head? ≠ some (chr 'E') := by
  have hall : ∀ n : Fin 16, hexDigit n ≠ chr 'E' := by decide
  cases bytes with
  | nil => simp
  | cons b bytes =>
      have hhigh : b.toNat / 16 < 16 := by have := b.isLt; omega
      rw [hexText_cons, hex2, List.cons_append, List.head?_cons]
      exact fun heq => hall ⟨_, hhigh⟩ (Option.some.inj heq)

theorem hexBytes_hexText (bytes : List (BitVec 8)) : hexBytes (hexText bytes) = bytes := by
  induction bytes with
  | nil => rfl
  | cons b bytes ih =>
      have hvalue := valueIn_hex2 b
      rw [hex2] at hvalue
      rw [hexText_cons, hex2, List.cons_append, List.cons_append, List.nil_append, hexBytes, ih,
        hvalue, BitVec.ofNat_toNat, BitVec.setWidth_eq]

/-- A text of two digits and the digits of `n` bytes. -/
theorem exists_two_digits {n : Nat} {ds : List Byte} (hlength : ds.length = 2 * (n + 1)) :
    ∃ h₁ h₂ ds', ds = h₁ :: h₂ :: ds' ∧ ds'.length = 2 * n := by
  obtain ⟨h₁, ds, rfl⟩ := List.exists_cons_of_length_eq_add_one hlength
  rw [List.length_cons, Nat.mul_succ, Nat.add_right_cancel_iff] at hlength
  obtain ⟨h₂, ds, rfl⟩ := List.exists_cons_of_length_eq_add_one hlength
  rw [List.length_cons, Nat.add_right_cancel_iff] at hlength
  exact ⟨h₁, h₂, ds, rfl, hlength⟩

theorem hexBytes_length {n : Nat} {ds : List Byte} (hlength : ds.length = 2 * n) :
    (hexBytes ds).length = n := by
  induction n generalizing ds with
  | zero =>
      rw [List.length_eq_zero_iff.mp hlength]
      rfl
  | succ n ih =>
      obtain ⟨h₁, h₂, ds, rfl, hrest⟩ := exists_two_digits hlength
      rw [hexBytes, List.length_cons, ih hrest]

/-- Digits as `sprintf` prints them. -/
def lowercase (ds : List Byte) : List Byte := ds.map fun b => hexDigit (digitValue b)

/-- Bytes that are read from digits are printed with the same digits. -/
theorem hexText_hexBytes {n : Nat} {ds : List Byte} (hhex : IsHex ds)
    (hlength : ds.length = 2 * n) : hexText (hexBytes ds) = lowercase ds := by
  induction n generalizing ds with
  | zero =>
      rw [List.length_eq_zero_iff.mp hlength]
      rfl
  | succ n ih =>
      obtain ⟨h₁, h₂, ds, rfl, hrest⟩ := exists_two_digits hlength
      have hhigh := digitValue_lt (hhex h₁ (by simp))
      have hlow := digitValue_lt (hhex h₂ (by simp))
      have hvalue : valueIn 16 [h₁, h₂] = 16 * digitValue h₁ + digitValue h₂ := by
        simp [valueIn]
      have hbyte : hex2 (BitVec.ofNat 8 (valueIn 16 [h₁, h₂])) = lowercase [h₁, h₂] := by
        rw [hvalue, hex2, BitVec.toNat_ofNat, Nat.mod_eq_of_lt (by omega),
          Nat.mul_add_div (by decide), Nat.div_eq_of_lt hlow, Nat.add_zero, Nat.mul_add_mod,
          Nat.mod_eq_of_lt hlow]
        rfl
      rw [hexBytes, hexText_cons, hbyte, ih (fun b hb => hhex b (by simp [hb])) hrest]
      rfl

/-- The digits determine the word. -/
theorem wordText_injective (cfg : GdbConfig) : Function.Injective (wordText cfg) := by
  intro v w heq
  have hbytes : wordBytes cfg.targetBigEndian v = wordBytes cfg.targetBigEndian w := by
    rw [← hexBytes_hexText (wordBytes _ v), ← hexBytes_hexText (wordBytes _ w)]
    exact congrArg hexBytes heq
  rw [← wordOf_wordBytes cfg.targetBigEndian v, hbytes, wordOf_wordBytes]

theorem wordText_length (cfg : GdbConfig) (v : BitVec 32) : (wordText cfg v).length = 8 := by
  rw [wordText, hexText_length, wordBytes_length]

theorem isHex_wordText (cfg : GdbConfig) (v : BitVec 32) : IsHex (wordText cfg v) :=
  isHex_hexText _

/-! ## The loops -/

/-- Both loops take the four bytes of the union, forwards or backwards. -/
theorem unionIndices_eq (cfg : GdbConfig) :
    unionIndices cfg
      = some (if cfg.hostBigEndian = cfg.targetBigEndian then [0, 1, 2, 3] else [3, 2, 1, 0]) := by
  unfold unionIndices
  split <;> decide

/-- In the order of the loop the bytes of the host are those of the target. -/
theorem bytesOfInteger_map (cfg : GdbConfig) (v : BitVec 32) :
    (if cfg.hostBigEndian = cfg.targetBigEndian then [0, 1, 2, 3] else [3, 2, 1, 0]).map
        (bytesOfInteger cfg v)
      = wordBytes cfg.targetBigEndian v := by
  obtain ⟨host, hostBigEndian, targetBigEndian⟩ := cfg
  unfold bytesOfInteger wordBytes
  simp only [split_four]
  cases hostBigEndian <;> cases targetBigEndian <;> rfl

/-- The texts `write_uint32` stores. -/
def wordTexts (cfg : GdbConfig) (v : BitVec 32) : List (List Byte) :=
  (wordBytes cfg.targetBigEndian v).map hex2 ++ [[]]

theorem wordTexts_ne_nil (cfg : GdbConfig) (v : BitVec 32) : wordTexts cfg v ≠ [] := by
  simp [wordTexts]

theorem wordTexts_flatten (cfg : GdbConfig) (v : BitVec 32) :
    (wordTexts cfg v).flatten = wordText cfg v := by
  rw [wordTexts, wordText, hexText, List.flatten_append, List.flatMap_def]
  simp

theorem writeBytes_runs (g : Gdb) (bytes : Nat → BitVec 8) (is : List Nat) (o : Nat) :
    Runs shown (writeBytes bytes is o) g (.ok ()) (g.pasted o ((is.map bytes).map hex2 ++ [[]]))
      (textStores o ((is.map bytes).map hex2 ++ [[]])) := by
  induction is generalizing g o with
  | nil => exact storeText_runs g o []
  | cons i is ih => exact (storeText_runs g o (hex2 (bytes i))).okBind (ih _ _)

/-- `write_uint32` stores the digits of the word. -/
theorem writeUint32_runs (cfg : GdbConfig) (g : Gdb) (o : Nat) (v : BitVec 32) :
    Runs shown (writeUint32 cfg o v) g (.ok ()) (g.pasted o (wordTexts cfg v))
      (textStores o (wordTexts cfg v)) := by
  unfold writeUint32
  rw [unionIndices_eq]
  have hloop := writeBytes_runs g (bytesOfInteger cfg v)
    (if cfg.hostBigEndian = cfg.targetBigEndian then [0, 1, 2, 3] else [3, 2, 1, 0]) o
  rw [bytesOfInteger_map] at hloop
  exact hloop

/-! ## Scanning bytes -/

/-- The value of `value` after `sscanf(data + o, "%02x", &value)`. -/
def scannedByte (data : List Byte) (o : Nat) (value : BitVec 32) : BitVec 32 :=
  match scanHex 2 (cstring (data.drop o)) with
  | some (v, _) => v
  | none => value

def scanEvents (data : List Byte) (o : Nat) : List GdbEvent :=
  .load o :: if (scanHex 2 (cstring (data.drop o))).isSome then [] else [.unassigned]

/-- The bytes of `n` scans, two characters apart. -/
def scannedBytes (data : List Byte) : Nat → Nat → BitVec 32 → List (BitVec 8)
  | 0, _, _ => []
  | n + 1, o, value =>
    let value := scannedByte data o value
    value.setWidth 8 :: scannedBytes data n (o + 2) value

def scansEvents (data : List Byte) : Nat → Nat → List GdbEvent
  | 0, _ => []
  | n + 1, o => scanEvents data o ++ scansEvents data n (o + 2)

/-- The word `read_uint32` returns. -/
def readWord (cfg : GdbConfig) (value : Nat → BitVec 32) (data : List Byte) (o : Nat) :
    BitVec 32 :=
  wordOf cfg.targetBigEndian (scannedBytes data 4 o (value o))

theorem scanByte_runs (g : Gdb) (data : List Byte) (o : Nat) (value : BitVec 32) :
    Runs shown (scanByte data o value) g (.ok (scannedByte data o value)) g
      (scanEvents data o) := by
  refine (loadString_runs g data o).okBind ?_
  unfold scannedByte
  cases hscan : scanHex 2 (cstring (data.drop o)) with
  | none => exact (gdbEmit_runs g rfl).okBindQuiet (Runs.okPure _ _ g)
  | some v => exact Runs.okPure _ _ g

/-- The bytes the loop of `read_uint32` assigns. -/
def assignedBytes (bytes : Nat → BitVec 8) : List Nat → List (BitVec 8) → Nat → BitVec 8
  | i :: is, b :: bs => assignedBytes (Function.update bytes i b) is bs
  | _, _ => bytes

theorem readBytes_runs (g : Gdb) (data : List Byte) (is : List Nat) (o : Nat) (value : BitVec 32)
    (bytes : Nat → BitVec 8) :
    Runs shown (readBytes data is o value bytes) g
      (.ok (assignedBytes bytes is (scannedBytes data is.length o value))) g
      (scansEvents data is.length o) := by
  induction is generalizing o value bytes with
  | nil => exact Runs.okPure _ _ g
  | cons i is ih => exact (scanByte_runs g data o value).okBind (ih _ _ _)

theorem integerOfBytes_assigned (cfg : GdbConfig) (bytes : Nat → BitVec 8)
    {bs : List (BitVec 8)} (h : bs.length = 4) :
    integerOfBytes cfg (assignedBytes bytes
        (if cfg.hostBigEndian = cfg.targetBigEndian then [0, 1, 2, 3] else [3, 2, 1, 0]) bs)
      = wordOf cfg.targetBigEndian bs := by
  obtain ⟨host, hostBigEndian, targetBigEndian⟩ := cfg
  obtain ⟨b₀, b₁, b₂, b₃, rfl⟩ := List.length_eq_four.mp h
  cases hostBigEndian <;> cases targetBigEndian <;> rfl

theorem scannedBytes_length (data : List Byte) (n o : Nat) (value : BitVec 32) :
    (scannedBytes data n o value).length = n := by
  induction n generalizing o value with
  | zero => rfl
  | succ n ih => rw [scannedBytes, List.length_cons, ih]

theorem readUint32_runs (cfg : GdbConfig) (g : Gdb) (value : Nat → BitVec 32) (data : List Byte)
    (o : Nat) :
    Runs shown (readUint32 cfg value data o) g (.ok (readWord cfg value data o)) g
      (scansEvents data 4 o) := by
  unfold readUint32
  rw [unionIndices_eq]
  have hloop := readBytes_runs g data
    (if cfg.hostBigEndian = cfg.targetBigEndian then [0, 1, 2, 3] else [3, 2, 1, 0]) o (value o)
    (fun _ => 0)
  have hlength : (if cfg.hostBigEndian = cfg.targetBigEndian then [0, 1, 2, 3]
      else [3, 2, 1, 0]).length = 4 := by split <;> rfl
  rw [hlength] at hloop
  rw [readWord, ← integerOfBytes_assigned cfg (fun _ => 0) (scannedBytes_length data 4 o (value o))]
  exact hloop.okBindQuiet (Runs.okPure _ _ g)

/-! ## Scanning digits -/

variable {data ds rest : List Byte} {o : Nat}

/-- The scan of two digits. -/
theorem scanHex_cstring {h₁ h₂ : Byte} (hhex : IsHex [h₁, h₂])
    (hdata : data.drop o = h₁ :: h₂ :: rest) :
    scanHex 2 (cstring (data.drop o))
      = some (toUnsigned false (valueIn 16 [h₁, h₂]), cstring rest) := by
  have h₁nul := (noDelimiter_of_isHexDigit (hhex h₁ (by simp))).nul
  have h₂nul := (noDelimiter_of_isHexDigit (hhex h₂ (by simp))).nul
  rw [hdata, cstring_cons h₁nul, cstring_cons h₂nul, scanHex_two _ hhex]

/-- Scans of digits assign their bytes, and use no value of before. -/
theorem scannedBytes_hex {n : Nat} (value : BitVec 32) (hhex : IsHex ds)
    (hlength : ds.length = 2 * n) (hdata : data.drop o = ds ++ rest) :
    scannedBytes data n o value = hexBytes ds ∧
      scansEvents data n o = (List.range n).map fun k => .load (o + 2 * k) := by
  induction n generalizing ds o value with
  | zero =>
      rw [List.length_eq_zero_iff.mp hlength]
      exact ⟨rfl, rfl⟩
  | succ n ih =>
      obtain ⟨h₁, h₂, ds, rfl, hbehind⟩ := exists_two_digits hlength
      have htwo : IsHex [h₁, h₂] := fun b hb => hhex b (by
        rcases List.mem_pair.mp hb with rfl | rfl <;> simp)
      have hlt : valueIn 16 [h₁, h₂] < 2 ^ 32 :=
        lt_of_lt_of_le (valueIn_lt htwo) (show 16 ^ 2 ≤ 2 ^ 32 by decide)
      have hscan := scanHex_cstring htwo hdata
      have hnext : data.drop (o + 2) = ds ++ rest := by
        rw [← List.drop_drop, hdata]
        rfl
      have hrest := ih (scannedByte data o value) (fun b hb => hhex b (by simp [hb])) hbehind hnext
      refine ⟨?_, ?_⟩
      · rw [scannedBytes, hexBytes, hrest.1]
        simp only [scannedByte, hscan]
        rw [toUnsigned_setWidth _ hlt]
      · rw [scansEvents, scanEvents, hscan, hrest.2, List.range_succ_eq_map, List.map_cons,
          List.map_map]
        have hstep : (fun k => GdbEvent.load (o + 2 * k)) ∘ Nat.succ
            = fun k => GdbEvent.load (o + 2 + 2 * k) := by
          funext k
          simp only [Function.comp]
          congr 1
          omega
        rw [hstep]
        rfl

/-- `read_uint32` of eight digits. -/
theorem readWord_hex (cfg : GdbConfig) (value : Nat → BitVec 32) (hhex : IsHex ds)
    (hlength : ds.length = 8) (hdata : data.drop o = ds ++ rest) :
    readWord cfg value data o = wordOf cfg.targetBigEndian (hexBytes ds) := by
  rw [readWord, (scannedBytes_hex (n := 4) _ hhex hlength hdata).1]

end Armator
