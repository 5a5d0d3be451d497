import Armator.Basic.Debug
import Armator.Lib.SortedTable

set_option autoImplicit false

/-! # The laws of the debug table

`add_debug_to` is ordered insertion and `__is_debugged` is membership, as long as there is
room (`debugTable_selects`). The capacity is tested on the position of the new name, not on
the count: a full table is left alone exactly by the names that sort behind all 64
(`capacityLaw_iff`).
-/

namespace Armator

open Logged CString SortedTable

/-- The names in the table, in order. -/
def DebugTable.entries (t : DebugTable) : List CStr :=
  SortedTable.entries t.debuggedFiles t.nbDebuggedFiles

@[simp] theorem DebugTable.entries_length (t : DebugTable) :
    t.entries.length = t.nbDebuggedFiles := SortedTable.entries_length _ _

/-- The access is to one of the first `n` entries. -/
def IndexBelow (n : Nat) (e : TableAccess) : Prop := 0 ≤ e.index ∧ e.index < n

theorem indexBelow_read {n : Nat} {i : Int} : IndexBelow n (.read i) ↔ 0 ≤ i ∧ i < n := Iff.rfl

theorem indexBelow_write {n : Nat} {i : Int} : IndexBelow n (.write i) ↔ 0 ≤ i ∧ i < n := Iff.rfl

theorem IndexBelow.mono {n n' : Nat} (h : n ≤ n') (e : TableAccess) (he : IndexBelow n e) :
    IndexBelow n' e := by
  obtain ⟨hlow, hup⟩ := he
  exact ⟨hlow, by omega⟩

section

variable {P : TableAccess → Prop} {t : DebugTable} {name : CStr}

theorem readFile_runs {i : Int} (hi : P (.read i)) (t : DebugTable) :
    RunsWithin P (readFile i) t (t.debuggedFiles i) t :=
  (RunsWithin.emit hi t).bind ((RunsWithin.getState P t).bind (RunsWithin.pure P _ t))

theorem writeFile_runs {i : Int} (hi : P (.write i)) (name : CStr) (t : DebugTable) :
    RunsWithin P (writeFile i name) t ()
      { t with debuggedFiles := Function.update t.debuggedFiles i name } :=
  (RunsWithin.emit hi t).bind (RunsWithin.modifyState P _ t)

/-! ## Insertion -/

/-- Where the `while` loop of `add_debug_to` stops. -/
structure InsertionPoint (t : DebugTable) (name : CStr) (i : Nat) : Prop where
  max : i ≤ 64
  le : i ≤ t.nbDebuggedFiles
  below : ∀ k < i, t.debuggedFiles k < name
  above : i < t.nbDebuggedFiles → i < 64 → name ≤ t.debuggedFiles i

theorem insertionPoint_runs (name : CStr) (t : DebugTable) (left : Nat) {i : Nat}
    (hleft : i + left = 64) (hi : i ≤ t.nbDebuggedFiles)
    (hbelow : ∀ k < i, t.debuggedFiles k < name) :
    ∃ r, RunsWithin (IndexBelow 64) (insertionPoint name left i) t r t ∧ InsertionPoint t name r := by
  induction left generalizing i with
  | zero =>
      exact ⟨i, RunsWithin.pure _ i t, ⟨by omega, hi, hbelow, fun _ _ => by omega⟩⟩
  | succ left ih =>
      by_cases hin : i < t.nbDebuggedFiles ∧ i < MAX_FILES_NUMBER
      · have hread : IndexBelow 64 (.read i) := by
          have hmax : i < 64 := hin.2
          exact indexBelow_read.mpr (by omega)
        by_cases hlt : strcmp (t.debuggedFiles i) name < 0
        · -- the entry is below the name
          obtain ⟨r, hrun, hpoint⟩ := ih (i := i + 1) (by omega) hin.1 fun k hk => by
            rcases Nat.lt_succ_iff_lt_or_eq.mp hk with hk | rfl
            · exact hbelow k hk
            · exact hlt
          refine ⟨r, (RunsWithin.getState _ t).bind ?_, hpoint⟩
          rw [if_pos hin]
          refine (readFile_runs hread t).bind ?_
          rw [if_pos hlt]
          exact hrun
        · refine ⟨i, (RunsWithin.getState _ t).bind ?_,
            ⟨by omega, hi, hbelow, fun _ _ => not_lt.mp hlt⟩⟩
          rw [if_pos hin]
          refine (readFile_runs hread t).bind ?_
          rw [if_neg hlt]
          exact RunsWithin.pure _ i t
      · refine ⟨i, (RunsWithin.getState _ t).bind ?_,
          ⟨by omega, hi, hbelow, fun h₁ h₂ => absurd ⟨h₁, h₂⟩ hin⟩⟩
        rw [if_neg hin]
        exact RunsWithin.pure _ i t

/-- The entries from `i` on, up to the index `j`, moved up by one. -/
def DebugTable.shifted (t : DebugTable) (i j : Nat) : DebugTable :=
  { t with debuggedFiles := fun k =>
      if (i : Int) < k ∧ k ≤ j then t.debuggedFiles (k - 1) else t.debuggedFiles k }

theorem shifted_of_le {i j : Nat} (h : j ≤ i) (t : DebugTable) : t.shifted i j = t := by
  unfold DebugTable.shifted
  congr 1
  funext k
  rw [if_neg (by omega)]

/-- The copy into the entry `j + 1` is not touched again. -/
theorem shifted_succ {i j : Nat} (h : i ≤ j) (t : DebugTable) :
    t.shifted i (j + 1) = DebugTable.shifted { t with
      debuggedFiles := Function.update t.debuggedFiles (j + 1 : Nat) (t.debuggedFiles j) } i j := by
  unfold DebugTable.shifted
  congr 1
  funext k
  dsimp only
  by_cases hk : k = (j + 1 : Nat)
  · subst hk
    rw [if_pos (by omega), if_neg (by omega), Function.update_self]
    congr 1
    omega
  · rw [Function.update_of_ne hk]
    by_cases hin : (i : Int) < k ∧ k ≤ j
    · rw [if_pos hin, if_pos (by omega), Function.update_of_ne (by omega)]
    · rw [if_neg hin, if_neg (by omega)]

theorem shiftFiles_runs (i j : Nat) (t : DebugTable) :
    RunsWithin (IndexBelow (j + 1)) (shiftFiles i j) t () (t.shifted i j) := by
  induction j generalizing t with
  | zero =>
      rw [shifted_of_le (Nat.zero_le i)]
      exact RunsWithin.pure _ () t
  | succ j ih =>
      unfold shiftFiles
      by_cases hj : j + 1 > i
      · have hread : IndexBelow (j + 1 + 1) (.read j) := indexBelow_read.mpr (by omega)
        have hwrite : IndexBelow (j + 1 + 1) (.write (j + 1 : Nat)) :=
          indexBelow_write.mpr (by omega)
        rw [if_pos hj, shifted_succ (Nat.le_of_lt_succ hj)]
        exact (readFile_runs hread t).bind <| (writeFile_runs hwrite _ t).bind <|
          (ih _).mono fun e he => he.mono (by omega)
      · rw [if_neg hj, shifted_of_le (Nat.not_lt.mp hj)]
        exact RunsWithin.pure _ () t

/-- The table after the insertion of `name` at `i`, which is 64 when it was refused. -/
def DebugTable.added (t : DebugTable) (i : Nat) (name : CStr) : DebugTable :=
  if 64 ≤ i then t
  else ⟨shiftIn t.debuggedFiles i t.nbDebuggedFiles name, t.nbDebuggedFiles + 1⟩

theorem addDebugTo_runs (name : CStr) (t : DebugTable) :
    ∃ i, InsertionPoint t name i ∧
      RunsWithin (IndexBelow (if 64 ≤ i then 64 else max 64 (t.nbDebuggedFiles + 1)))
        (addDebugTo name) t () (t.added i name) := by
  obtain ⟨i, hrun, hpoint⟩ := insertionPoint_runs name t 64 rfl (Nat.zero_le _)
    (fun k hk => by omega)
  refine ⟨i, hpoint, ?_⟩
  unfold addDebugTo DebugTable.added
  by_cases hfull : 64 ≤ i
  · rw [if_pos hfull, if_pos hfull]
    refine hrun.bind ?_
    rw [if_pos (show i ≥ MAX_FILES_NUMBER from hfull)]
    exact RunsWithin.pure _ () t
  · rw [if_neg hfull, if_neg hfull]
    have hle := hpoint.le
    have hwrite : IndexBelow (max 64 (t.nbDebuggedFiles + 1)) (.write i) :=
      indexBelow_write.mpr (by omega)
    refine (hrun.mono fun e he => he.mono (by omega)).bind ?_
    rw [if_neg (show ¬ i ≥ MAX_FILES_NUMBER from hfull)]
    have hshift := (shiftFiles_runs i t.nbDebuggedFiles t).mono
      (Q := IndexBelow (max 64 (t.nbDebuggedFiles + 1))) fun e he => he.mono (by omega)
    have hstored : (⟨shiftIn t.debuggedFiles i t.nbDebuggedFiles name, t.nbDebuggedFiles + 1⟩
        : DebugTable) = { t.shifted i t.nbDebuggedFiles with
          debuggedFiles := Function.update (t.shifted i t.nbDebuggedFiles).debuggedFiles i name
          nbDebuggedFiles := t.nbDebuggedFiles + 1 } := by
      congr 1
      funext k
      unfold shiftIn DebugTable.shifted
      by_cases hk : k = i
      · rw [if_pos hk, hk, Function.update_self]
      · rw [if_neg hk, Function.update_of_ne hk]
    rw [hstored]
    exact (RunsWithin.getState _ t).bind <| hshift.bind <| (writeFile_runs hwrite name _).bind <|
      RunsWithin.modifyState _ _ _

theorem InsertionPoint.isPosition {i : Nat} (h : InsertionPoint t name i) (hi : i < 64) :
    IsPosition t.debuggedFiles t.nbDebuggedFiles name i where
  le := h.le
  below := h.below
  above hlt := h.above hlt hi

/-- **While there is room a call inserts its name in order.** -/
theorem addDebugTo_room (hroom : t.nbDebuggedFiles < 64) (name : CStr) :
    ∃ t', RunsWithin (IndexBelow 64) (addDebugTo name) t () t' ∧
      t'.entries = t.entries.orderedInsert (· ≤ ·) name := by
  obtain ⟨i, hpoint, hrun⟩ := addDebugTo_runs name t
  have hle := hpoint.le
  have hi : i < 64 := by omega
  refine ⟨_, hrun.mono fun e he => he.mono ?_, ?_⟩
  · rw [if_neg (by omega)]
    omega
  · rw [DebugTable.added, if_neg (by omega)]
    exact (hpoint.isPosition hi).entries_shiftIn

/-- A full table refuses a name that is above all of its entries. -/
theorem addDebugTo_refused (hfull : t.nbDebuggedFiles = 64) (habove : ∀ x ∈ t.entries, x < name) :
    RunsWithin (IndexBelow 64) (addDebugTo name) t () t := by
  obtain ⟨i, hpoint, hrun⟩ := addDebugTo_runs name t
  have hi : 64 ≤ i := by
    by_contra hlt
    have hmem : t.debuggedFiles i ∈ t.entries := mem_entries_of_inside (by omega) (by omega)
    exact absurd (habove _ hmem) (not_lt.mpr (hpoint.above (by omega) (by omega)))
  rw [if_pos hi, DebugTable.added, if_pos hi] at hrun
  exact hrun

/-- A full table takes every other name as its 65th. -/
theorem addDebugTo_overflow (hfull : t.nbDebuggedFiles = 64) {x name : CStr}
    (hx : x ∈ t.entries) (hle : name ≤ x) : (addDebugTo name t).state.nbDebuggedFiles = 65 := by
  obtain ⟨i, hpoint, hrun⟩ := addDebugTo_runs name t
  have hi : ¬ 64 ≤ i := by
    intro hall
    obtain ⟨k, hk, rfl⟩ := mem_entries.mp hx
    exact absurd (hpoint.below k (by omega)) (not_lt.mpr hle)
  rw [hrun.state, DebugTable.added, if_neg hi, hfull]

/-! ## Runs of insertions -/

theorem addDebugOptions_append (xs ys : List CStr) :
    addDebugOptions (xs ++ ys) = addDebugOptions xs >>= fun _ => addDebugOptions ys := by
  induction xs with
  | nil => rfl
  | cons x xs ih =>
      calc addDebugOptions (x :: xs ++ ys)
          = addDebugTo x >>= fun _ => addDebugOptions (xs ++ ys) := rfl
        _ = addDebugTo x >>= fun _ => addDebugOptions xs >>= fun _ => addDebugOptions ys := by
            rw [ih]
        _ = addDebugOptions (x :: xs) >>= fun _ => addDebugOptions ys :=
            (Logged.bind_assoc _ _ _).symm

/-- While there is room the calls keep the table sorted and store every name. -/
theorem addDebugOptions_room (names : List CStr) (t : DebugTable)
    (hroom : t.nbDebuggedFiles + names.length ≤ 64) (hs : t.entries.Pairwise (· ≤ ·)) :
    ∃ t', RunsWithin (IndexBelow 64) (addDebugOptions names) t () t' ∧
      t'.entries.Pairwise (· ≤ ·) ∧ t'.entries.Perm (names ++ t.entries) := by
  induction names generalizing t with
  | nil => exact ⟨t, RunsWithin.pure _ () t, hs, List.Perm.refl _⟩
  | cons name names ih =>
      rw [List.length_cons] at hroom
      obtain ⟨t₁, hrun₁, hentries⟩ := addDebugTo_room (t := t) (by omega) name
      have hnb : t₁.nbDebuggedFiles = t.nbDebuggedFiles + 1 := by
        rw [← t₁.entries_length, hentries, List.orderedInsert_length, t.entries_length]
      have hs₁ : t₁.entries.Pairwise (· ≤ ·) := by
        rw [hentries]
        exact hs.orderedInsert name _
      obtain ⟨t₂, hrun₂, hs₂, hperm⟩ := ih t₁ (by omega) hs₁
      refine ⟨t₂, hrun₁.bind hrun₂, hs₂, ?_⟩
      have hinsert : List.Perm t₁.entries (name :: t.entries) := by
        rw [hentries]
        exact List.perm_orderedInsert (· ≤ ·) name t.entries
      calc List.Perm t₂.entries (names ++ t₁.entries) := hperm
        List.Perm _ (names ++ name :: t.entries) := hinsert.append_left names
        List.Perm _ (name :: (names ++ t.entries)) := List.perm_middle

/-! ## The search -/

/-- The search decides by the last entry of its window, if there is one. -/
theorem isDebuggedFrom_end (name : CStr) (fuel : Nat) {lo hi : Int} (hlo : 0 ≤ lo)
    (hhi : hi < t.nbDebuggedFiles) (hend : ¬ lo < hi) :
    ∃ r, RunsWithin (IndexBelow t.nbDebuggedFiles) (isDebuggedFrom name (fuel + 1) lo hi) t r t ∧
      (Window t.debuggedFiles t.nbDebuggedFiles name lo hi →
        r = some (if name ∈ t.entries then 1 else 0)) := by
  unfold isDebuggedFrom
  rw [if_neg hend]
  by_cases heq : lo = hi
  · subst heq
    have hread : IndexBelow t.nbDebuggedFiles (.read lo) := indexBelow_read.mpr (by omega)
    rw [if_pos rfl]
    refine ⟨some (if strcmp (t.debuggedFiles lo) name = 0 then 1 else 0),
      (readFile_runs hread t).bind ?_, fun hw => ?_⟩
    · split <;> exact RunsWithin.pure _ _ t
    · have hiff : strcmp (t.debuggedFiles lo) name = 0 ↔ name ∈ t.entries :=
        CStr.strcmp_eq_zero.trans hw.single
      rw [if_congr hiff rfl rfl]
  · rw [if_neg heq]
    refine ⟨some 0, RunsWithin.pure _ _ t, fun hw => ?_⟩
    have hnot : name ∉ t.entries := hw.empty (by omega)
    rw [if_neg hnot]

/-- From bounds inside the table the search stays inside it. With a window that holds every
occurrence, and fuel for its length, it decides membership. -/
theorem isDebuggedFrom_runs (name : CStr) (fuel : Nat) {lo hi : Int} (hlo : 0 ≤ lo)
    (hhi : hi < t.nbDebuggedFiles) :
    ∃ r, RunsWithin (IndexBelow t.nbDebuggedFiles) (isDebuggedFrom name fuel lo hi) t r t ∧
      (Sorted t.debuggedFiles t.nbDebuggedFiles →
        Window t.debuggedFiles t.nbDebuggedFiles name lo hi → (hi - lo).toNat < fuel →
          r = some (if name ∈ t.entries then 1 else 0)) := by
  induction fuel generalizing lo hi with
  | zero => exact ⟨none, RunsWithin.pure _ _ t, fun _ _ hfuel => by omega⟩
  | succ fuel ih =>
      by_cases hlt : lo < hi
      · unfold isDebuggedFrom
        have hmid : (lo + hi).tdiv 2 = (lo + hi) / 2 := Int.tdiv_eq_ediv_of_nonneg (by omega)
        rw [if_pos hlt, hmid]
        generalize hm : (lo + hi) / 2 = middle
        have hin : lo ≤ middle ∧ middle ≤ hi := by omega
        have hread : IndexBelow t.nbDebuggedFiles (.read middle) :=
          indexBelow_read.mpr (by omega)
        have hswap := CStr.strcmp_swap name (t.debuggedFiles middle)
        -- the entry in the middle is the name, or leaves a smaller window
        rcases lt_trichotomy (t.debuggedFiles middle) name with hless | heq | hmore
        · have hneg : strcmp (t.debuggedFiles middle) name < 0 := hless
          obtain ⟨r, hrun, hr⟩ := ih (show 0 ≤ middle + 1 by omega) hhi
          refine ⟨r, (readFile_runs hread t).bind ?_, fun hs hw hfuel => ?_⟩
          · rw [if_pos hneg]
            exact hrun
          · exact hr hs (hw.right hs hin hless) (by omega)
        · have hzero : strcmp (t.debuggedFiles middle) name = 0 := CStr.strcmp_eq_zero.mpr heq
          refine ⟨some 1, (readFile_runs hread t).bind ?_, fun hs hw hfuel => ?_⟩
          · rw [hzero, if_neg (by decide), if_neg (by decide)]
            exact RunsWithin.pure _ _ t
          · have hmem : name ∈ t.entries := by
              rw [← heq]
              exact mem_entries_of_inside (by omega) (by omega)
            rw [if_pos hmem]
        · have hneg : strcmp name (t.debuggedFiles middle) < 0 := hmore
          obtain ⟨r, hrun, hr⟩ := ih hlo
            (show middle - 1 < t.nbDebuggedFiles by omega)
          refine ⟨r, (readFile_runs hread t).bind ?_, fun hs hw hfuel => ?_⟩
          · rw [if_neg (by omega), if_pos (by omega)]
            exact hrun
          · exact hr hs (hw.left hs hin hmore) (by omega)
      · obtain ⟨r, hrun, hr⟩ := isDebuggedFrom_end name fuel hlo hhi hlt
        exact ⟨r, hrun, fun _ hw _ => hr hw⟩

theorem isDebugged_runs (fuel : Nat) (name : CStr) (t : DebugTable) :
    ∃ r, RunsWithin (IndexBelow t.nbDebuggedFiles) (isDebugged fuel name) t r t ∧
      (t.entries.Pairwise (· ≤ ·) → t.nbDebuggedFiles < fuel →
        r = some (if name ∈ t.entries then 1 else 0)) := by
  obtain ⟨r, hrun, hr⟩ := isDebuggedFrom_runs name fuel (Int.le_refl 0)
    (show (t.nbDebuggedFiles - 1 : Int) < t.nbDebuggedFiles by omega)
  exact ⟨r, (RunsWithin.getState _ t).bind hrun,
    fun hs hfuel => hr hs Window.start (by omega)⟩

end

/-! ## The laws -/

/-- The table after the `-d` options `names`. -/
def DebugTable.after (storage : Int → CStr) (names : List CStr) : DebugTable :=
  (addDebugOptions names (.initial storage)).state

/-- The table holds the names in the order of `strcmp`, and the search finds these names and no
others; it needs no more steps than there are names. -/
structure Selects (t : DebugTable) (names : List CStr) : Prop where
  sorted : t.entries.Pairwise fun s s' => strcmp s s' ≤ 0
  perm : t.entries.Perm names
  search : ∀ (s : CStr) (fuel : Nat), t.nbDebuggedFiles < fuel →
    (isDebugged fuel s t).value = some (if s ∈ names then 1 else 0)

/-- **The selection of debugged files is set membership**, for up to 64 names. -/
theorem debugTable_selects (storage : Int → CStr) {names : List CStr}
    (hlength : names.length ≤ 64) : Selects (.after storage names) names := by
  obtain ⟨t, hrun, hsorted, hperm⟩ := addDebugOptions_room names (.initial storage)
    (by simpa [DebugTable.initial] using hlength) List.Pairwise.nil
  have hempty : (DebugTable.initial storage).entries = [] := rfl
  rw [hempty, List.append_nil] at hperm
  rw [DebugTable.after, hrun.state]
  refine ⟨hsorted, hperm, fun s fuel hfuel => ?_⟩
  obtain ⟨r, hsearch, hr⟩ := isDebugged_runs fuel s t
  rw [hsearch.value, hr hsorted hfuel, if_congr hperm.mem_iff rfl rfl]

/-- A C string of characters other than NUL. -/
def fileName (cs : List Char) (h : cs.all (fun c => c.toNat % 256 != 0) = true) : CStr :=
  ⟨text cs, nul_text h⟩

/-- Three options, one of them repeated. -/
theorem debugTable_selects_three :
    Selects (.after (fun _ => fileName [] rfl)
        [fileName ['b'] rfl, fileName ['a', 'a'] rfl, fileName ['b'] rfl])
      [fileName ['b'] rfl, fileName ['a', 'a'] rfl, fileName ['b'] rfl] :=
  debugTable_selects _ (by decide)

/-- Every access is to one of the 64 entries, the count stays below 65, and a full table is left
unchanged. -/
structure CapacityLaw (storage : Int → CStr) (names : List CStr) : Prop where
  added : ∀ e ∈ (addDebugOptions names (.initial storage)).events, 0 ≤ e.index ∧ e.index ≤ 63
  searched : ∀ (k : Nat) (s : CStr) (fuel : Nat),
    ∀ e ∈ (isDebugged fuel s (.after storage (names.take k))).events, 0 ≤ e.index ∧ e.index ≤ 63
  count : ∀ k, (DebugTable.after storage (names.take k)).nbDebuggedFiles ≤ 64
  full : ∀ k, (DebugTable.after storage (names.take k)).nbDebuggedFiles = 64 →
    DebugTable.after storage (names.take (k + 1)) = .after storage (names.take k)

/-- Each name from the 65th on sorts behind the first 64. -/
def LaterNamesAbove (names : List CStr) : Prop :=
  ∀ s ∈ names.take 64, ∀ s' ∈ names.drop 64, strcmp s s' < 0

section

variable {storage : Int → CStr} {names : List CStr}

theorem after_append (xs ys : List CStr) :
    DebugTable.after storage (xs ++ ys)
      = (addDebugOptions ys (.after storage xs)).state := by
  rw [DebugTable.after, addDebugOptions_append]
  rfl

/-- A full table refuses names above its entries, one after the other. -/
theorem addDebugOptions_refused {t : DebugTable} (hfull : t.nbDebuggedFiles = 64)
    (habove : ∀ x ∈ t.entries, ∀ name ∈ names, x < name) :
    RunsWithin (IndexBelow 64) (addDebugOptions names) t () t := by
  induction names with
  | nil => exact RunsWithin.pure _ () t
  | cons name names ih =>
      have hfirst := addDebugTo_refused hfull fun x hx => habove x hx name List.mem_cons_self
      exact hfirst.bind (ih fun x hx name' hmem => habove x hx name' (List.mem_cons_of_mem _ hmem))

theorem LaterNamesAbove.take (h : LaterNamesAbove names) (k : Nat) :
    LaterNamesAbove (names.take k) := by
  intro s hs s' hs'
  refine h s ?_ s' ?_
  · rw [List.take_take] at hs
    exact (List.take_sublist_take_left (Nat.min_le_left 64 k)).subset hs
  · rw [List.drop_take] at hs'
    exact List.mem_of_mem_take hs'

/-- With later names above the first 64, the table holds the first 64. -/
theorem LaterNamesAbove.runs (h : LaterNamesAbove names) (storage : Int → CStr) :
    RunsWithin (IndexBelow 64) (addDebugOptions names) (.initial storage) ()
        (.after storage names) ∧
      (DebugTable.after storage names).entries.Perm (names.take 64) := by
  obtain ⟨t, hrun, hsorted, hperm⟩ := addDebugOptions_room (names.take 64)
    (.initial storage) (by simp [DebugTable.initial]) List.Pairwise.nil
  have hempty : (DebugTable.initial storage).entries = [] := rfl
  rw [hempty, List.append_nil] at hperm
  have hrest : RunsWithin (IndexBelow 64) (addDebugOptions (names.drop 64)) t () t := by
    rcases Nat.lt_or_ge 64 names.length with hlong | hshort
    · refine addDebugOptions_refused ?_ fun x hx name hname => ?_
      · rw [← t.entries_length, hperm.length_eq, List.length_take]
        omega
      · exact h x (hperm.mem_iff.mp hx) name hname
    · rw [List.drop_eq_nil_of_le hshort]
      exact RunsWithin.pure _ () t
  have hall : RunsWithin (IndexBelow 64) (addDebugOptions names) (.initial storage) () t := by
    have hbind := hrun.bind (f := fun _ => addDebugOptions (names.drop 64)) hrest
    rwa [← addDebugOptions_append, List.take_append_drop] at hbind
  have hafter : DebugTable.after storage names = t := hall.state
  rw [hafter]
  exact ⟨hall, hperm⟩

/-- The call for the option `k`. -/
theorem after_take_succ (k : Nat) :
    DebugTable.after storage (names.take (k + 1))
      = (addDebugOptions names[k]?.toList (.after storage (names.take k))).state := by
  rw [List.take_add_one, after_append]

/-- A full table that is left alone once is left alone by every later call. -/
theorem CapacityLaw.after_eq (h : CapacityLaw storage names)
    (hfull : (DebugTable.after storage (names.take 64)).nbDebuggedFiles = 64) (j : Nat) :
    DebugTable.after storage (names.take (64 + j)) = .after storage (names.take 64) := by
  induction j with
  | zero => rfl
  | succ j ih =>
      have hcount : (DebugTable.after storage (names.take (64 + j))).nbDebuggedFiles = 64 := by
        rw [ih, hfull]
      calc DebugTable.after storage (names.take (64 + (j + 1)))
          = .after storage (names.take (64 + j)) := h.full (64 + j) hcount
        _ = .after storage (names.take 64) := ih

/-- Under the law a name that finds the table full is above its entries. -/
theorem CapacityLaw.laterNamesAbove (h : CapacityLaw storage names) : LaterNamesAbove names := by
  intro s hs s' hs'
  obtain ⟨j, hj⟩ := List.mem_iff_getElem?.mp hs'
  rw [List.getElem?_drop] at hj
  have hlength : 64 + j < names.length := (List.getElem?_eq_some_iff.mp hj).1
  have hnone : LaterNamesAbove (names.take 64) := by
    intro s _ s' hs'
    rw [List.drop_take, Nat.sub_self, List.take_zero] at hs'
    cases hs'
  have hperm := (hnone.runs storage).2
  rw [List.take_take, Nat.min_self] at hperm
  have hfull : (DebugTable.after storage (names.take 64)).nbDebuggedFiles = 64 := by
    rw [← DebugTable.entries_length, hperm.length_eq, List.length_take]
    omega
  have hbefore := h.after_eq hfull j
  have hstep : (addDebugTo s' (.after storage (names.take (64 + j)))).state
      = .after storage (names.take (64 + j)) := by
    have hsame := h.full (64 + j) (by rw [hbefore, hfull])
    rw [after_take_succ, hj] at hsame
    exact hsame
  -- otherwise the table would take the name as its 65th
  by_contra hnot
  have hle : s' ≤ s := not_lt.mp hnot
  have hover := addDebugTo_overflow hfull (hperm.mem_iff.mpr hs) hle
  rw [← hbefore, hstep, hbefore, hfull] at hover
  exact absurd hover (by decide)

theorem LaterNamesAbove.count (h : LaterNamesAbove names) (k : Nat) :
    (DebugTable.after storage (names.take k)).nbDebuggedFiles = min 64 (names.take k).length := by
  rw [← DebugTable.entries_length, ((h.take k).runs storage).2.length_eq, List.length_take]

/-- A call that finds the table full leaves it. -/
theorem LaterNamesAbove.full (h : LaterNamesAbove names) {k : Nat}
    (hfull : (DebugTable.after storage (names.take k)).nbDebuggedFiles = 64) :
    DebugTable.after storage (names.take (k + 1)) = .after storage (names.take k) := by
  have hk : 64 ≤ k := by
    rw [h.count, List.length_take] at hfull
    omega
  have hperm := ((h.take k).runs storage).2
  rw [List.take_take, Nat.min_eq_left hk] at hperm
  rw [after_take_succ]
  refine (addDebugOptions_refused hfull fun x hx name hname => ?_).state
  refine h x (hperm.mem_iff.mp hx) name (List.mem_iff_getElem?.mpr ⟨k - 64, ?_⟩)
  rw [List.getElem?_drop, show 64 + (k - 64) = k by omega]
  exact Option.mem_toList.mp hname

end

/-- **The capacity law holds exactly when the names from the 65th on sort behind the first 64.** -/
theorem capacityLaw_iff (storage : Int → CStr) (names : List CStr) :
    CapacityLaw storage names ↔ LaterNamesAbove names := by
  constructor
  · exact CapacityLaw.laterNamesAbove
  · intro h
    refine ⟨fun e he => ?_, fun k s fuel e he => ?_, fun k => ?_, fun k hfull => h.full hfull⟩
    · obtain ⟨hlow, hup⟩ := (h.runs storage).1.events e he
      exact ⟨hlow, by omega⟩
    · obtain ⟨r, hsearch, -⟩ := isDebugged_runs fuel s (.after storage (names.take k))
      obtain ⟨hlow, hup⟩ := hsearch.events e he
      rw [h.count] at hup
      exact ⟨hlow, by omega⟩
    · rw [h.count]
      exact Nat.min_le_left 64 _

/-- The same name 65 times: a full table takes it once more. -/
theorem not_capacityLaw_repeated :
    ¬ CapacityLaw (fun _ => fileName [] rfl) (List.replicate 65 (fileName ['a'] rfl)) := by
  intro hlaw
  have hcount := hlaw.count 65
  exact absurd hcount (by decide +kernel)

end Armator
