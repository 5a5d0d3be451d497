import Mathlib.Data.List.Basic

set_option autoImplicit false

/-! # Longest-match lexers

A lexer is a list of rules, each the set of the words it matches. At every position it takes
the longest matching prefix of the input, for the first rule that matches it; where no rule
matches it takes one character by default (rule `none`). If a character only ever begins a word,
the lexer is back in step wherever the character stands (`tokenize_sync`).
-/

namespace Lexer

variable {α : Type}

abbrev Rule (α : Type) := List α → Bool

/-- A token: the rule that matched, and the matched text. -/
abbrev Token (α : Type) := Option Nat × List α

/-- The first rule that matches a word. -/
def firstRule (rules : List (Rule α)) (w : List α) : Option Nat := rules.findIdx? fun r => r w

/-- The longest matched prefix of `s` of length at most the given one. -/
def longest (rules : List (Rule α)) (s : List α) : Nat → Option (Nat × Nat)
  | 0 => none
  | n + 1 =>
    match firstRule rules (s.take (n + 1)) with
    | some i => some (i, n + 1)
    | none => longest rules s n

/-- The token at the start of `s`. -/
def next (rules : List (Rule α)) (s : List α) : Token α :=
  match longest rules s s.length with
  | some (i, n) => (some i, s.take n)
  | none => (none, s.take 1)

/-- At most `fuel` tokens of `s`. -/
def tokens (rules : List (Rule α)) : Nat → List α → List (Token α)
  | _, [] => []
  | 0, _ => []
  | fuel + 1, s =>
    let t := next rules s
    t :: tokens rules fuel (s.drop t.2.length)

/-- All tokens: no token is empty, so there are not more than characters. -/
def tokenize (rules : List (Rule α)) (s : List α) : List (Token α) := tokens rules s.length s

variable {rules : List (Rule α)} {s w u v : List α} {b : α}

/-! ## The next token -/

theorem longest_some {n i m : Nat} (h : longest rules s n = some (i, m)) :
    0 < m ∧ m ≤ n ∧ firstRule rules (s.take m) = some i := by
  induction n with
  | zero => cases h
  | succ n ih =>
      rw [longest] at h
      split at h
      · rename_i j hfirst
        cases h
        exact ⟨Nat.succ_pos n, Nat.le_refl _, hfirst⟩
      · obtain ⟨hpos, hle, hfirst⟩ := ih h
        exact ⟨hpos, Nat.le_succ_of_le hle, hfirst⟩

theorem longest_none {n k : Nat} (h : longest rules s n = none) (hk : 0 < k) (hn : k ≤ n) :
    firstRule rules (s.take k) = none := by
  induction n with
  | zero => omega
  | succ n ih =>
      rw [longest] at h
      split at h
      · cases h
      · rename_i hfirst
        rcases Nat.lt_or_eq_of_le hn with hlt | heq
        · exact ih h (Nat.le_of_lt_succ hlt)
        · rw [heq, hfirst]

/-- The rule a length is matched by, when no greater length is matched. -/
theorem longest_eq {n m i : Nat} (hm : 0 < m) (hn : m ≤ n)
    (hfirst : firstRule rules (s.take m) = some i)
    (hlonger : ∀ k, m < k → k ≤ n → firstRule rules (s.take k) = none) :
    longest rules s n = some (i, m) := by
  induction n with
  | zero => omega
  | succ n ih =>
      rw [longest]
      rcases Nat.lt_or_eq_of_le hn with hlt | heq
      · rw [hlonger (n + 1) hlt (Nat.le_refl _)]
        exact ih (Nat.le_of_lt_succ hlt) fun k hk hkn => hlonger k hk (Nat.le_succ_of_le hkn)
      · rw [← heq, hfirst]

/-- A token is a beginning of the input, not empty, and matched by its rule. -/
theorem next_spec (rules : List (Rule α)) (hs : s ≠ []) :
    ∃ n, 0 < n ∧ n ≤ s.length ∧ (next rules s).2 = s.take n ∧
      match (next rules s).1 with
      | some i => firstRule rules (s.take n) = some i
      | none => n = 1 := by
  rw [next]
  cases hlongest : longest rules s s.length with
  | none =>
      have hpos : 0 < s.length := List.length_pos_of_ne_nil hs
      exact ⟨1, Nat.one_pos, hpos, rfl, rfl⟩
  | some im =>
      obtain ⟨hpos, hle, hfirst⟩ := longest_some hlongest
      exact ⟨im.2, hpos, hle, rfl, hfirst⟩

theorem next_eq {i : Nat} (hw : w ≠ []) (hfirst : firstRule rules w = some i)
    (hlonger : ∀ k, w.length < k → k ≤ (w ++ v).length →
      firstRule rules ((w ++ v).take k) = none) :
    next rules (w ++ v) = (some i, w) := by
  have htake : (w ++ v).take w.length = w := List.take_left
  have hlongest : longest rules (w ++ v) (w ++ v).length = some (i, w.length) :=
    longest_eq (List.length_pos_of_ne_nil hw) (by simp) (by rw [htake]; exact hfirst) hlonger
  rw [next, hlongest]
  exact Prod.ext rfl htake

/-! ## All tokens -/

theorem tokens_nil (rules : List (Rule α)) (fuel : Nat) : tokens rules fuel [] = [] := by
  cases fuel <;> rfl

theorem tokens_succ (rules : List (Rule α)) (fuel : Nat) (hs : s ≠ []) :
    tokens rules (fuel + 1) s
      = next rules s :: tokens rules fuel (s.drop (next rules s).2.length) := by
  cases s with
  | nil => exact absurd rfl hs
  | cons c s => rfl

theorem next_length_pos (rules : List (Rule α)) (hs : s ≠ []) :
    0 < (next rules s).2.length := by
  obtain ⟨n, hpos, hle, htext, -⟩ := next_spec rules hs
  rw [htext, List.length_take]
  omega

theorem tokens_fuel {fuel : Nat} (h : s.length ≤ fuel) :
    tokens rules fuel s = tokenize rules s := by
  rw [tokenize]
  induction fuel using Nat.strongRecOn generalizing s with
  | _ fuel ih =>
      by_cases hs : s = []
      · rw [hs, tokens_nil, tokens_nil]
      · have hpos := List.length_pos_of_ne_nil hs
        have htoken := next_length_pos rules hs
        obtain ⟨fuel, rfl⟩ := Nat.exists_eq_succ_of_ne_zero (show fuel ≠ 0 by omega)
        obtain ⟨n, hn⟩ := Nat.exists_eq_succ_of_ne_zero (show s.length ≠ 0 by omega)
        have hrest : (s.drop (next rules s).2.length).length ≤ n := by
          rw [List.length_drop]
          omega
        rw [hn, tokens_succ rules fuel hs, tokens_succ rules n hs,
          ih fuel (Nat.lt_succ_self _) (by omega), ← ih n (by omega) hrest]

theorem tokenize_cons (rules : List (Rule α)) (hs : s ≠ []) :
    tokenize rules s
      = next rules s :: tokenize rules (s.drop (next rules s).2.length) := by
  have hpos := List.length_pos_of_ne_nil hs
  have htoken := next_length_pos rules hs
  obtain ⟨n, hn⟩ := Nat.exists_eq_succ_of_ne_zero (show s.length ≠ 0 by omega)
  rw [tokenize, hn, tokens_succ rules n hs]
  congr 1
  refine tokens_fuel ?_
  rw [List.length_drop]
  omega

/-- The token at the start of the input, and the rest. -/
theorem tokenize_append {i : Nat} (hw : w ≠ []) (hnext : next rules (w ++ v) = (some i, w)) :
    tokenize rules (w ++ v) = (some i, w) :: tokenize rules v := by
  have hne : w ++ v ≠ [] := by simp [hw]
  rw [tokenize_cons rules hne, hnext, List.drop_left]

/-- A character that no longer word begins with is a token. -/
theorem tokenize_single (hlonger : ∀ k, 1 < k → k ≤ (b :: v).length →
    firstRule rules ((b :: v).take k) = none) :
    tokenize rules (b :: v) = (firstRule rules [b], [b]) :: tokenize rules v := by
  have hnext : next rules (b :: v) = (firstRule rules [b], [b]) := by
    rw [next]
    cases hlongest : longest rules (b :: v) (b :: v).length with
    | none =>
        have hone : firstRule rules [b] = none :=
          longest_none hlongest Nat.one_pos (Nat.succ_pos v.length)
        rw [hone]
        rfl
    | some im =>
        obtain ⟨i, n⟩ := im
        obtain ⟨hpos, hle, hfirst⟩ := longest_some hlongest
        have hn : n = 1 := by
          by_contra hne
          rw [hlonger n (by omega) hle] at hfirst
          cases hfirst
        subst hn
        have hone : firstRule rules [b] = some i := hfirst
        rw [hone]
        rfl
  rw [tokenize_cons rules (List.cons_ne_nil b v), hnext]
  rfl

/-- The rule of a token matches its text; without a rule it is one character. -/
def IsToken (rules : List (Rule α)) (t : Token α) : Prop :=
  match t.1 with
  | some i => firstRule rules t.2 = some i
  | none => t.2.length = 1

theorem next_isToken (rules : List (Rule α)) (hs : s ≠ []) : IsToken rules (next rules s) := by
  obtain ⟨n, hpos, hle, htext, hrule⟩ := next_spec rules hs
  rw [IsToken, htext]
  split at hrule
  · exact hrule
  · exact (List.length_take_of_le hle).trans hrule

/-- What holds of every token that can stand at the start of an input holds of all tokens. -/
theorem tokenize_forall {Q : Token α → Prop} (h : ∀ s, s ≠ [] → Q (next rules s)) (s : List α) :
    ∀ t ∈ tokenize rules s, Q t := by
  induction hlength : s.length using Nat.strongRecOn generalizing s with
  | _ n ih =>
      intro t ht
      by_cases hs : s = []
      · rw [hs, tokenize, tokens_nil] at ht
        cases ht
      · rw [tokenize_cons rules hs] at ht
        have hpos := List.length_pos_of_ne_nil hs
        have htoken := next_length_pos rules hs
        rcases List.mem_cons.mp ht with rfl | hrest
        · exact h s hs
        · refine ih _ ?_ _ rfl t hrest
          rw [List.length_drop]
          omega

theorem tokenize_isToken (rules : List (Rule α)) (s : List α) :
    ∀ t ∈ tokenize rules s, IsToken rules t :=
  tokenize_forall (fun _ hs => next_isToken rules hs) s

/-- The default is taken where no rule matches. -/
theorem tokenize_firstRule (rules : List (Rule α)) (s : List α) :
    ∀ t ∈ tokenize rules s, firstRule rules t.2 = t.1 := by
  refine tokenize_forall (fun s hs => ?_) s
  rw [next]
  cases hlongest : longest rules s s.length with
  | none => exact longest_none hlongest Nat.one_pos (List.length_pos_of_ne_nil hs)
  | some im => exact (longest_some hlongest).2.2

/-- The tokens are the input, one behind the other. -/
theorem tokenize_flatten (rules : List (Rule α)) (s : List α) :
    ((tokenize rules s).map Prod.snd).flatten = s := by
  induction hlength : s.length using Nat.strongRecOn generalizing s with
  | _ n ih =>
      by_cases hs : s = []
      · rw [hs, tokenize, tokens_nil]
        rfl
      · obtain ⟨k, hpos, hle, htext, -⟩ := next_spec rules hs
        have hk : (next rules s).2.length = k := by rw [htext, List.length_take_of_le hle]
        have hrest : (s.drop k).length < n := by
          rw [List.length_drop]
          omega
        rw [tokenize_cons rules hs, List.map_cons, List.flatten_cons, hk, ih _ hrest _ rfl, htext,
          List.take_append_drop]

/-! ## Synchronisation -/

/-- In the words the rules match, `b` stands nowhere but at the start. -/
def OnlyFirst (rules : List (Rule α)) (b : α) : Prop :=
  ∀ w, (firstRule rules w).isSome → b ∉ w.tail

theorem IsToken.notMem (hb : OnlyFirst rules b) {t : Token α} (h : IsToken rules t) :
    b ∉ t.2.tail := by
  rcases t with ⟨_ | i, text⟩
  · -- the default takes one character
    obtain ⟨c, rfl⟩ := List.length_eq_one_iff.mp (show text.length = 1 from h)
    simp
  · have hfirst : firstRule rules text = some i := h
    exact hb text (by rw [hfirst]; rfl)

/-- **Synchronisation.** Whatever stands in front of `b`, a token begins at `b`. -/
theorem tokenize_sync (hb : OnlyFirst rules b) (u v : List α) :
    ∃ ts, tokenize rules (u ++ b :: v) = ts ++ tokenize rules (b :: v) ∧
      (ts.map Prod.snd).flatten = u := by
  induction hlength : u.length using Nat.strongRecOn generalizing u with
  | _ n ih =>
      by_cases hu : u = []
      · exact ⟨[], by rw [hu]; rfl, hu.symm⟩
      · have hne : u ++ b :: v ≠ [] := by simp
        have hupos := List.length_pos_of_ne_nil hu
        obtain ⟨n', hpos, hle, htext, -⟩ := next_spec rules hne
        -- a longer token would have `b` behind its first character
        have hinside : n' ≤ u.length := by
          by_contra hlong
          have hmem : b ∈ ((u ++ b :: v).take n').tail := by
            obtain ⟨c, u', rfl⟩ := List.exists_cons_of_ne_nil hu
            obtain ⟨k, rfl⟩ := Nat.exists_eq_succ_of_ne_zero (show n' ≠ 0 by omega)
            rw [List.length_cons] at hlong
            rw [List.cons_append, List.take_succ_cons, List.tail_cons, List.take_append]
            have hk : k - u'.length = (k - u'.length - 1) + 1 := by omega
            rw [hk, List.take_succ_cons]
            simp
          rw [← htext] at hmem
          exact (next_isToken rules hne).notMem hb hmem
        have htake : (u ++ b :: v).take n' = u.take n' := List.take_append_of_le_length hinside
        have hdrop : (u ++ b :: v).drop (next rules (u ++ b :: v)).2.length
            = u.drop n' ++ b :: v := by
          rw [htext, htake, List.length_take, Nat.min_eq_left hinside,
            List.drop_append_of_le_length hinside]
        obtain ⟨ts, hts, hflat⟩ := ih (u.drop n').length (by rw [List.length_drop]; omega) _ rfl
        refine ⟨next rules (u ++ b :: v) :: ts, ?_, ?_⟩
        · rw [tokenize_cons rules hne, hdrop, hts]
          rfl
        · rw [List.map_cons, List.flatten_cons, hflat, htext, htake, List.take_append_drop]

end Lexer
