import Armator.Laws.Transfer

set_option autoImplicit false

/-! # The end of the memory

`X` looks at its first address only and no write fails, so a range that leaves the memory is
written and acknowledged (`binaryWriteLaw_iff`). `m` stops one byte too late (`dumpLaw_iff`).
Addresses wrap at `2^32`, the ranges of the laws do not.
-/

namespace Armator

open Logged CString

/-! ## Bytes at wrapped addresses -/

section

variable {mem : Memory} {address : BitVec 32} {d : List (BitVec 8)}

/-- The cell the access at distance `k` reaches. -/
theorem wrapped_toNat (address : BitVec 32) {k : Nat} (hk : k < 2 ^ 32) :
    (address + BitVec.ofNat 32 k).toNat = if address.toNat + k < 2 ^ 32 then address.toNat + k
      else address.toNat + k - 2 ^ 32 := by
  have hlt := address.isLt
  rw [BitVec.toNat_add, BitVec.toNat_ofNat]
  split <;> omega

/-- Each byte is stored at its wrapped address. -/
theorem Memory.stored_cell (hlength : d.length < 2 ^ 32) {k : Nat} (hk : k < d.length) :
    (mem.stored address d).address (address + BitVec.ofNat 32 k).toNat = d.getD k 0 := by
  induction d generalizing mem address k with
  | nil => cases hk
  | cons b d ih =>
      rw [List.length_cons] at hlength hk
      cases k with
      | zero =>
          -- shorter than the address space, the list does not come back to its first cell
          rw [Memory.stored_cons, BitVec.add_zero,
            Memory.stored_frame (notMem_covered_next (by omega))]
          exact Function.update_self _ _ _
      | succ k =>
          rw [Memory.stored_cons, ← next_add_ofNat, ih (by omega) (by omega)]
          rfl

/-- Inside the memory a dump goes over the whole range. -/
theorem Memory.dumped_inside {n : Nat} (h : mem.Inside address n) :
    mem.dumped n address = (covered address n).map mem.address := by
  induction n generalizing address with
  | zero => rfl
  | succ n ih =>
      have hsize : address.toNat + (n + 1) ≤ mem.size := h
      rw [Memory.dumped, if_pos (by omega), ih h.next, covered_succ, List.map_cons]
      rfl

/-- A dump goes on at least up to the size itself. -/
theorem Memory.lt_dumped_length {m n : Nat} (hm : m < n) (h : address.toNat + m ≤ mem.size) :
    m < (mem.dumped n address).length := by
  induction n generalizing address m with
  | zero => cases hm
  | succ n ih =>
      rw [Memory.dumped, if_pos (by omega), List.length_cons]
      cases m with
      | zero => exact Nat.succ_pos _
      | succ m =>
          have hle := next_toNat_le address
          exact Nat.succ_lt_succ (ih (by omega) (by omega))

end

/-! ## Downloads -/

/-- `X` of the bytes `d`: all of them are written, or none. -/
structure BinaryWriteLaw (mem : Memory) (address : BitVec 32) (d : List (BitVec 8))
    (o : Outcome Gdb GdbEvent (Except Fault Unit)) : Prop where
  accepted : mem.Inside address d.length → sends o.events = [frame (text ['O', 'K'])] ∧
    ∀ i, o.state.mem.address i =
      if address.toNat ≤ i ∧ i < address.toNat + d.length then d.getD (i - address.toNat) 0
      else mem.address i
  refused : ¬ mem.Inside address d.length → sends o.events = [frame (text ['E', '0', '2'])] ∧
    ∀ i, o.state.mem.address i = mem.address i

/-- Where the range wraps, both the bytes beyond `2^32` and those that are hit instead hold the
bytes that are written. -/
def WrapsOnto (mem : Memory) (address : BitVec 32) (d : List (BitVec 8)) : Prop :=
  ∀ i, 2 ^ 32 ≤ i → i < address.toNat + d.length →
    mem.address i = d.getD (i - address.toNat) 0 ∧
      mem.address (i - 2 ^ 32) = d.getD (i - address.toNat) 0

/-- Bytes stored at wrapped addresses are at the exact ones exactly under `WrapsOnto`. -/
theorem Memory.stored_exact_iff (mem : Memory) (address : BitVec 32) {d : List (BitVec 8)}
    (hlength : d.length < 2 ^ 32) :
    (∀ i, (mem.stored address d).address i =
        if address.toNat ≤ i ∧ i < address.toNat + d.length then d.getD (i - address.toNat) 0
        else mem.address i) ↔ WrapsOnto mem address d := by
  have hlt := address.isLt
  have hcell {i : Nat} (hlow : address.toNat ≤ i) (hhigh : i < address.toNat + d.length) :
      (mem.stored address d).address (if i < 2 ^ 32 then i else i - 2 ^ 32)
        = d.getD (i - address.toNat) 0 := by
    have hwrap := wrapped_toNat address (k := i - address.toNat) (by omega)
    rw [Nat.add_sub_cancel' hlow] at hwrap
    rw [← hwrap]
    exact Memory.stored_cell hlength (by omega)
  have hbeyond {i : Nat} (hi : 2 ^ 32 ≤ i) : (mem.stored address d).address i = mem.address i := by
    refine Memory.stored_frame fun hmem => ?_
    obtain ⟨k, -, rfl⟩ := mem_covered.mp hmem
    exact absurd (address + BitVec.ofNat 32 k).isLt (Nat.not_lt.mpr hi)
  constructor
  · intro hexact i hi hhigh
    have hhit := hcell (i := i) (by omega) hhigh
    rw [if_neg (by omega)] at hhit
    refine ⟨?_, ?_⟩
    · rw [← hbeyond hi, hexact, if_pos (by omega)]
    · rw [← hhit, hexact, if_neg (by omega)]
  · intro hwraps i
    split
    · rename_i hrange
      by_cases hi : i < 2 ^ 32
      · have hhit := hcell hrange.1 hrange.2
        rwa [if_pos hi] at hhit
      · rw [hbeyond (by omega)]
        exact (hwraps i (by omega) hrange.2).1
    · rename_i hrange
      by_cases hmem : i ∈ covered address d.length
      · -- a cell that is covered but not in the range is one the range wraps onto
        obtain ⟨k, hk, heq⟩ := mem_covered.mp hmem
        have hwrap := wrapped_toNat address (k := k) (by omega)
        have hpast : ¬ address.toNat + k < 2 ^ 32 := by
          intro hshort
          rw [if_pos hshort] at hwrap
          omega
        rw [if_neg hpast] at hwrap
        have hdue := (hwraps (i + 2 ^ 32) (by omega) (by omega)).2
        have hhit := hcell (i := i + 2 ^ 32) (by omega) (by omega)
        rw [if_neg (by omega), Nat.add_sub_cancel] at hhit
        rw [Nat.add_sub_cancel] at hdue
        rw [hhit, hdue]
      · exact Memory.stored_frame hmem

section

variable (u : GdbLocals) (g : Gdb) {data d e rest : List Byte} {address size : BitVec 32}
  {o : Nat}

/-- **A download is all or nothing exactly when its range does not leave the memory behind its
first byte.** -/
theorem binaryWriteLaw_iff (hpair : scanPair (cstring data) = (some address, some size))
    (hafter : afterChar data (chr ':') = some o) (hdata : data.drop o = e ++ rest)
    (he : Unescapes d e) (hlength : d.length = size.toNat) (hne : d ≠ []) :
    BinaryWriteLaw g.mem address d (writeMemoryBinary u data g) ↔
      g.mem.size ≤ address.toNat ∨ g.mem.Inside address d.length ∧ WrapsOnto g.mem address d := by
  have hpos := List.length_pos_of_ne_nil hne
  have hbound : d.length < 2 ^ 32 := by
    rw [hlength]
    exact size.isLt
  have hrange := givenRange_of_pair hpair u
  have hsilent := (silent_rangeEvents data).append (silent_afterEvents data (chr ':'))
  -- the one check of the handler
  by_cases haddress : address.toNat < g.mem.size
  · have hrun := writeMemoryBinary_runs u data g (by rw [hrange]; exact haddress) hafter
    rw [hrange] at hrun
    dsimp only at hrun
    rw [← hlength, contents_unescapes he hdata, ← List.append_assoc, ← List.append_assoc] at hrun
    have hsends : sends (writeMemoryBinary u data g).events = [frame (text ['O', 'K'])] := by
      rw [sends_of_runs hrun, sends_reply (hsilent.append (silent_contentEvents data _ o)),
        List.flatten_singleton]
    have hmem : (writeMemoryBinary u data g).state.mem = g.mem.stored address d := by
      rw [hrun.state]
      rfl
    have hexact := g.mem.stored_exact_iff address hbound
    constructor
    · intro hlaw
      have hinside : g.mem.Inside address d.length := by
        by_contra hout
        have hreply := (hlaw.refused hout).1
        rw [hsends] at hreply
        exact absurd hreply (by decide)
      have hcells := (hlaw.accepted hinside).2
      rw [hmem] at hcells
      exact .inr ⟨hinside, hexact.mp hcells⟩
    · rintro (hbeyond | ⟨hinside, hwraps⟩)
      · exact absurd haddress (Nat.not_lt.mpr hbeyond)
      · refine ⟨fun _ => ⟨hsends, ?_⟩, fun hout => absurd hinside hout⟩
        rw [hmem]
        exact hexact.mpr hwraps
  · have hrun := writeMemoryBinary_refused u data g (by rw [hrange]; exact haddress)
    rw [← List.append_assoc] at hrun
    refine iff_of_true ⟨fun hinside => ?_, fun _ => ⟨?_, fun i => ?_⟩⟩
      (.inl (Nat.not_lt.mp haddress))
    · have hsize : address.toNat + d.length ≤ g.mem.size := hinside
      omega
    · rw [sends_of_runs hrun, sends_reply hsilent, List.flatten_singleton]
    · rw [hrun.state]
      rfl

end

/-- `X4,2:` with a closing brace, escaped, and a NUL. -/
theorem binaryWriteLaw_iff_brace :
    let data := text ['4', ',', '2', ':'] ++ [0x7d, 0x5d, 0x00, 0x00]
    BinaryWriteLaw (idleGdb 64).mem 4 [0x7d, 0x00]
        (writeMemoryBinary zeroLocals data (idleGdb 64)) ↔
      (idleGdb 64).mem.size ≤ (4 : BitVec 32).toNat ∨
        (idleGdb 64).mem.Inside 4 2 ∧ WrapsOnto (idleGdb 64).mem 4 [0x7d, 0x00] := by
  intro data
  have hpair : scanPair (cstring data) = (some 4, some 2) := by decide
  have hafter : afterChar data (chr ':') = some 4 := by decide
  have hdata : data.drop 4 = [0x7d, 0x5d, 0x00] ++ [0x00] := by decide
  have he : Unescapes [0x7d, 0x00] [0x7d, 0x5d, 0x00] :=
    .escape (b := 0x5d) (.plain (by decide) .nil)
  exact binaryWriteLaw_iff zeroLocals (idleGdb 64) hpair hafter hdata he (by decide) (by decide)

/-- `X3f,2:ab` in a memory of 64 bytes writes behind its end and is acknowledged. -/
theorem not_binaryWriteLaw_end :
    let data := text ['3', 'f', ',', '2', ':', 'a', 'b', '\x00']
    ¬ BinaryWriteLaw (idleGdb 64).mem 63 (text ['a', 'b'])
        (writeMemoryBinary zeroLocals data (idleGdb 64)) := by
  intro data hlaw
  have hreply := (hlaw.refused (by decide)).1
  exact absurd hreply (by decide)

/-! ## Dumps -/

/-- The bytes of the range that exist, at addresses that do not wrap. -/
def Memory.existing (mem : Memory) (address n : Nat) : List (BitVec 8) :=
  (List.range (min (address + n) mem.size - address)).map fun k => mem.address (address + k)

/-- `m` prints the bytes of the range that exist, and sees no others. -/
structure DumpLaw (u : GdbLocals) (data : List Byte) (g : Gdb) (address n : Nat) : Prop where
  payload : sends (readMemory u data g).events = [frame (hexText (g.mem.existing address n))]
  blind : ∀ mem' : Memory, mem'.isBigEndian = g.mem.isBigEndian → mem'.size = g.mem.size →
    (∀ i < g.mem.size, mem'.address i = g.mem.address i) →
    sends (readMemory u data (g.withMem mem')).events = sends (readMemory u data g).events

section

variable (u : GdbLocals) (g : Gdb) {data : List Byte} {address size : BitVec 32}

theorem sends_readMemory (hpair : scanPair (cstring data) = (some address, some size)) :
    sends (readMemory u data g).events
      = [frame (hexText (g.mem.dumped size.toNat address))] := by
  rw [sends_of_runs (readMemory_runs u data g), sends_reply (silent_rangeEvents data),
    dumpTexts_flatten, dumpText, givenRange_of_pair hpair]

theorem hexText_injective : Function.Injective hexText := by
  intro d d' heq
  rw [← hexBytes_hexText d, heq, hexBytes_hexText]

/-- Behind the size nothing is dumped. -/
theorem Memory.dumped_behind {mem : Memory} {address : BitVec 32}
    (h : mem.size < address.toNat) (n : Nat) : mem.dumped n address = [] := by
  cases n with
  | zero => rfl
  | succ n => exact if_neg (Nat.not_le.mpr h)

theorem Memory.existing_length (mem : Memory) (address n : Nat) :
    (mem.existing address n).length = min (address + n) mem.size - address := by
  rw [existing, List.length_map, List.length_range]

/-- Inside the memory a dump is right exactly when it is not wrapped onto other bytes. -/
theorem Memory.dumped_inside_iff {mem : Memory} {address : BitVec 32} {n : Nat} (hn : n < 2 ^ 32)
    (hinside : mem.Inside address n) :
    mem.dumped n address = mem.existing address.toNat n ↔
      ∀ i, 2 ^ 32 ≤ i → i < address.toNat + n → mem.address (i - 2 ^ 32) = mem.address i := by
  have hsize : address.toNat + n ≤ mem.size := hinside
  have hcount : min (address.toNat + n) mem.size - address.toNat = n := by omega
  rw [Memory.dumped_inside hinside, existing, hcount, covered, List.map_map, List.map_inj_left]
  constructor
  · intro hall i hi hhigh
    have hlt := address.isLt
    have hbyte := hall (i - address.toNat) (List.mem_range.mpr (by omega))
    rw [Function.comp_apply, wrapped_toNat address (by omega), if_neg (by omega),
      Nat.add_sub_cancel' (by omega)] at hbyte
    exact hbyte
  · intro hall k hk
    have hk' : k < n := List.mem_range.mp hk
    rw [Function.comp_apply, wrapped_toNat address (by omega)]
    split
    · rfl
    · exact hall _ (by omega) (by omega)

/-- A dump is right exactly when it starts behind the memory, or stays inside and the bytes
beyond `2^32` are those that are printed instead. -/
theorem Memory.dumped_eq_existing_iff {mem : Memory} {address : BitVec 32} {n : Nat}
    (hn : n < 2 ^ 32) :
    mem.dumped n address = mem.existing address.toNat n ↔
      mem.size < address.toNat ∨ mem.Inside address n ∧
        ∀ i, 2 ^ 32 ≤ i → i < address.toNat + n → mem.address (i - 2 ^ 32) = mem.address i := by
  by_cases hbehind : mem.size < address.toNat
  · have hempty : mem.existing address.toNat n = [] := by
      rw [← List.length_eq_zero_iff, Memory.existing_length]
      omega
    exact iff_of_true ((Memory.dumped_behind hbehind n).trans hempty.symm) (.inl hbehind)
  · constructor
    · intro heq
      have hinside : mem.Inside address n := by
        by_contra hout
        have hpast : ¬ address.toNat + n ≤ mem.size := hout
        -- the byte at the size itself is dumped, too
        have hlong : mem.size - address.toNat < (mem.dumped n address).length :=
          Memory.lt_dumped_length (by omega) (by omega)
        rw [heq, Memory.existing_length] at hlong
        omega
      exact .inr ⟨hinside, (Memory.dumped_inside_iff hn hinside).mp heq⟩
    · rintro (hsize | ⟨hinside, hwraps⟩)
      · exact absurd hsize hbehind
      · exact (Memory.dumped_inside_iff hn hinside).mpr hwraps

/-- Such a dump sees the bytes below the size only. -/
theorem Memory.dumped_congr {mem mem' : Memory} {address : BitVec 32} {n : Nat}
    (hcases : mem.size < address.toNat ∨ mem.Inside address n) (hsize : mem'.size = mem.size)
    (hbytes : ∀ i < mem.size, mem'.address i = mem.address i) :
    mem'.dumped n address = mem.dumped n address := by
  rcases hcases with hbehind | hinside
  · rw [Memory.dumped_behind hbehind, Memory.dumped_behind (by rwa [hsize])]
  · have hinside' : mem'.Inside address n := by
      rw [Memory.Inside, hsize]
      exact hinside
    rw [Memory.dumped_inside hinside, Memory.dumped_inside hinside']
    exact List.map_congr_left fun i hi => hbytes i (hinside.covered_lt hi)

/-- **A dump stops at the end of the memory exactly when it starts behind it or never reaches
it.** The guard of the reads lets the address equal the size. -/
theorem dumpLaw_iff (hpair : scanPair (cstring data) = (some address, some size)) :
    DumpLaw u data g address.toNat size.toNat ↔
      g.mem.size < address.toNat ∨ g.mem.Inside address size.toNat ∧
        ∀ i, 2 ^ 32 ≤ i → i < address.toNat + size.toNat →
          g.mem.address (i - 2 ^ 32) = g.mem.address i := by
  rw [← Memory.dumped_eq_existing_iff size.isLt]
  constructor
  · intro hlaw
    have hpayload := hlaw.payload
    rw [sends_readMemory u g hpair] at hpayload
    exact hexText_injective (frame_injective (List.cons.inj hpayload).1)
  · intro heq
    refine ⟨?_, fun mem' _ hsize hbytes => ?_⟩
    · rw [sends_readMemory u g hpair, heq]
    · have hcases : g.mem.size < address.toNat ∨ g.mem.Inside address size.toNat :=
        ((Memory.dumped_eq_existing_iff size.isLt).mp heq).imp_right And.left
      rw [sends_readMemory u g hpair, sends_readMemory u _ hpair]
      exact congrArg (fun d => [frame (hexText d)]) (Memory.dumped_congr hcases hsize hbytes)

end

/-- `m3c,4`, the last word of a memory of 64 bytes. -/
theorem dumpLaw_iff_last :
    let mem := (idleGdb 64).mem
    DumpLaw zeroLocals (text ['3', 'c', ',', '4', '\x00']) (idleGdb 64) 60 4 ↔
      mem.size < (60 : BitVec 32).toNat ∨ mem.Inside 60 (4 : BitVec 32).toNat ∧
        ∀ i, 2 ^ 32 ≤ i → i < (60 : BitVec 32).toNat + (4 : BitVec 32).toNat →
          mem.address (i - 2 ^ 32) = mem.address i := by
  have hpair : scanPair (cstring (text ['3', 'c', ',', '4', '\x00'])) = (some 60, some 4) := by
    decide
  exact dumpLaw_iff zeroLocals (idleGdb 64) hpair

/-- `m40,1` in a memory of 64 bytes prints the byte behind its end. -/
theorem not_dumpLaw_end :
    ¬ DumpLaw zeroLocals (text ['4', '0', ',', '1', '\x00']) (idleGdb 64) 64 1 := by
  intro hlaw
  exact absurd hlaw.payload (by decide)

end Armator
