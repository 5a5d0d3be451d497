import Armator.Semantics.WordText

set_option autoImplicit false

/-! # The codec of words

`read_uint32` reads back what `write_uint32` prints, and the digits depend on the byte order of
the target alone (`wordCodecLaw`).
-/

namespace Armator

open Logged CString

/-- The digits of a word, from its most or from its least significant byte on. -/
def wordDigits (targetBigEndian : Bool) (v : BitVec 32) : List Byte :=
  (if targetBigEndian then [3, 2, 1, 0] else [0, 1, 2, 3]).flatMap fun k =>
    hex2 (v.extractLsb' (8 * k) 8)

def tolower (b : Byte) : Byte := if chr 'A' ≤ b ∧ b ≤ chr 'Z' then b + 0x20 else b

def lowercaseDigits : List Byte :=
  text ['0', '1', '2', '3', '4', '5', '6', '7', '8', '9', 'a', 'b', 'c', 'd', 'e', 'f']

/-- What is asked of `write_uint32` and `read_uint32` on a host and for a target. -/
structure WordCodecLaw (cfg : GdbConfig) : Prop where
  /-- Both loops end, and take each byte of the union once. -/
  loop : ∃ is, unionIndices cfg = some is ∧ is.Perm [0, 1, 2, 3]
  written : ∀ g o v, (writeUint32 cfg o v g).value = .ok () ∧
    (writeUint32 cfg o v g).state
      = g.withPacket (overwrite g.packet o (wordDigits cfg.targetBigEndian v ++ [0]))
  digits : ∀ v, (wordDigits cfg.targetBigEndian v).length = 8 ∧
    ∀ d ∈ wordDigits cfg.targetBigEndian v, d ∈ lowercaseDigits
  read : ∀ g value v data o rest, data.drop o = wordDigits cfg.targetBigEndian v ++ rest →
    (readUint32 cfg value data o g).value = .ok v
  rewritten : ∀ g value ds data o rest, IsHex ds → ds.length = 8 → data.drop o = ds ++ rest →
    ∃ v, (readUint32 cfg value data o g).value = .ok v ∧
      wordDigits cfg.targetBigEndian v = ds.map tolower

/-! ## Digits -/

theorem wordText_eq_wordDigits (cfg : GdbConfig) (v : BitVec 32) :
    wordText cfg v = wordDigits cfg.targetBigEndian v := by
  have hbyte (k : Nat) : BitVec.ofNat 8 (v.toNat / 2 ^ (8 * k)) = v.extractLsb' (8 * k) 8 := by
    rw [BitVec.extractLsb', Nat.shiftRight_eq_div_pow]
  have hsplit : split 4 v.toNat = [3, 2, 1, 0].map fun k => v.extractLsb' (8 * k) 8 := by
    rw [split_four, List.map_cons, List.map_cons, List.map_cons, List.map_singleton, ← hbyte,
      ← hbyte, ← hbyte, ← hbyte, Nat.mul_zero, pow_zero, Nat.div_one]
  rw [wordText, hexText, wordBytes, hsplit, wordDigits]
  cases cfg.targetBigEndian <;> rfl

theorem hexDigit_mem {n : Nat} (hn : n < 16) : hexDigit n ∈ lowercaseDigits := by
  have hall : ∀ n : Fin 16, hexDigit n ∈ lowercaseDigits := by decide
  exact hall ⟨n, hn⟩

theorem hex2_mem {b d : Byte} (hd : d ∈ hex2 b) : d ∈ lowercaseDigits := by
  have hlt := b.isLt
  rcases List.mem_pair.mp hd with rfl | rfl
  · exact hexDigit_mem (by omega)
  · exact hexDigit_mem (by omega)

/-- A digit of either case is printed in lower case. -/
theorem lowercase_eq_tolower {ds : List Byte} (h : IsHex ds) : lowercase ds = ds.map tolower := by
  have hall : ∀ b : Byte, isHexDigit b = true → hexDigit (digitValue b) = tolower b := by
    decide +kernel
  exact List.map_congr_left fun b hb => hall b (h b hb)

/-! ## The law -/

/-- **The codec of words is exact on every host, for every target.** -/
theorem wordCodecLaw (cfg : GdbConfig) : WordCodecLaw cfg := by
  have hread (g : Gdb) (value : Nat → BitVec 32) (data : List Byte) (o : Nat) :=
    (readUint32_runs cfg g value data o).value
  refine ⟨?_, fun g o v => ?_, fun v => ?_, fun g value v data o rest hdata => ?_,
    fun g value ds data o rest hhex hlength hdata => ?_⟩
  · rw [unionIndices_eq]
    refine ⟨_, rfl, ?_⟩
    split <;> decide
  · have hrun := writeUint32_runs cfg g o v
    refine ⟨hrun.value, ?_⟩
    rw [hrun.state, Gdb.pasted, paste_eq _ _ (wordTexts_ne_nil cfg v), wordTexts_flatten,
      wordText_eq_wordDigits]
  · rw [← wordText_eq_wordDigits]
    refine ⟨wordText_length cfg v, fun d hd => ?_⟩
    obtain ⟨b, -, hb⟩ := List.mem_flatMap.mp hd
    exact hex2_mem hb
  · rw [← wordText_eq_wordDigits] at hdata
    rw [hread, readWord_hex cfg value (isHex_wordText cfg v) (wordText_length cfg v) hdata,
      wordText, hexBytes_hexText, wordOf_wordBytes]
  · refine ⟨_, hread g value data o, ?_⟩
    have hbytes : (hexBytes ds).length = 4 := hexBytes_length (n := 4) hlength
    rw [readWord_hex cfg value hhex hlength hdata, ← wordText_eq_wordDigits, wordText,
      wordBytes_wordOf _ hbytes, hexText_hexBytes (n := 4) hhex hlength, lowercase_eq_tolower hhex]

end Armator
