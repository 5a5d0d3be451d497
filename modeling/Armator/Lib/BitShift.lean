import Mathlib.Data.BitVec
import Mathlib.Logic.Function.Iterate

set_option autoImplicit false

/-! # Shifting one bit at a time

A word is shifted together with a flag that keeps the last bit shifted out. `once f out` is one
shift: `f` moves the bits by one place, `out` is the bit that drops out. Repeating it `k` times
is the shift by `k` (`left_iterate`, `right_iterate`, `signed_iterate`, `rotate_iterate`), for
every `k`, also beyond the width.
-/

namespace BitShift

variable {w : Nat}

def once (f : BitVec w → BitVec w) (out : BitVec w → Bool) (x : BitVec w × Bool) :
    BitVec w × Bool := (f x.1, out x.1)

/-- The last of `k + 1` shifts drops a bit of the word after `k` of them. -/
theorem once_iterate (f : BitVec w → BitVec w) (out : BitVec w → Bool) (k : Nat)
    (x : BitVec w × Bool) : (once f out)^[k + 1] x = (f^[k + 1] x.1, out (f^[k] x.1)) := by
  induction k with
  | zero => rfl
  | succ k ih =>
      rw [Function.iterate_succ_apply', ih, Function.iterate_succ_apply' f (k + 1)]
      rfl

/-- What takes one step more each time is the iterate of the step. -/
theorem iterate_of_succ {α : Type} {f : α → α} {g : Nat → α → α} (hzero : ∀ x, g 0 x = x)
    (hsucc : ∀ k x, g (k + 1) x = f (g k x)) (k : Nat) (x : α) : f^[k] x = g k x := by
  induction k with
  | zero => exact (hzero x).symm
  | succ k ih => rw [Function.iterate_succ_apply', ih, hsucc]

/-! ## Rotations -/

/-- A rotation moves the bits around a circle. -/
theorem getLsbD_rotateRight_mod (x : BitVec w) (r : Nat) {i : Nat} (hi : i < w) :
    (x.rotateRight r).getLsbD i = x.getLsbD ((i + r) % w) := by
  have hr : r % w < w := Nat.mod_lt _ (by omega)
  have hsum : (i + r) % w = (i + r % w) % w := (Nat.add_mod_mod i r w).symm
  rw [BitVec.getLsbD_rotateRight, hsum]
  by_cases hlow : i < w - r % w
  · rw [decide_eq_true hlow, cond_true, Nat.mod_eq_of_lt (show i + r % w < w by omega),
      Nat.add_comm]
  · have hwrap : (i + r % w) % w = i - (w - r % w) := by
      rw [Nat.mod_eq_sub_mod (by omega), Nat.mod_eq_of_lt (by omega)]
      omega
    rw [decide_eq_false hlow, cond_false, decide_eq_true hi, Bool.true_and, hwrap]

theorem rotateRight_zero (x : BitVec w) : x.rotateRight 0 = x := by
  apply BitVec.eq_of_getLsbD_eq
  intro i hi
  rw [getLsbD_rotateRight_mod x 0 hi, Nat.add_zero, Nat.mod_eq_of_lt hi]

theorem rotateRight_rotateRight (x : BitVec w) (r s : Nat) :
    (x.rotateRight r).rotateRight s = x.rotateRight (r + s) := by
  apply BitVec.eq_of_getLsbD_eq
  intro i hi
  have hmod : (i + s) % w < w := Nat.mod_lt _ (by omega)
  rw [getLsbD_rotateRight_mod _ s hi, getLsbD_rotateRight_mod _ r hmod,
    getLsbD_rotateRight_mod _ (r + s) hi, Nat.mod_add_mod, Nat.add_assoc, Nat.add_comm s]

/-- A rotation is undone by going on to a full turn. -/
theorem rotateRight_injective (r : Nat) :
    Function.Injective fun x : BitVec w => x.rotateRight r := by
  intro x y hxy
  have hturn (z : BitVec w) : (z.rotateRight r).rotateRight (w - r % w) = z := by
    rcases Nat.eq_zero_or_pos w with rfl | hw
    · exact Subsingleton.elim _ _
    · have hlt : r % w < w := Nat.mod_lt _ hw
      have hfull : (r % w + (w - r % w)) % w = 0 := by
        rw [Nat.add_sub_cancel' (Nat.le_of_lt hlt), Nat.mod_self]
      rw [← BitVec.rotateRight_mod_eq_rotateRight (r := r), rotateRight_rotateRight,
        ← BitVec.rotateRight_mod_eq_rotateRight, hfull, rotateRight_zero]
  have hsame : x.rotateRight r = y.rotateRight r := hxy
  rw [← hturn x, hsame, hturn]

/-! ## Repeated shifts -/

section

variable (k : Nat) (x : BitVec w × Bool)

theorem left_iterate :
    (once (· <<< 1) BitVec.msb)^[k + 1] x = (x.1 <<< (k + 1), x.1.getMsbD k) := by
  have hshift : ∀ (k : Nat) (m : BitVec w), (fun y : BitVec w => y <<< 1)^[k] m = m <<< k :=
    iterate_of_succ BitVec.shiftLeft_zero fun k m => BitVec.shiftLeft_add m k 1
  rw [once_iterate, hshift, hshift, BitVec.msb_shiftLeft]

theorem right_iterate :
    (once (· >>> 1) (BitVec.getLsbD · 0))^[k + 1] x = (x.1 >>> (k + 1), x.1.getLsbD k) := by
  have hshift : ∀ (k : Nat) (m : BitVec w), (fun y : BitVec w => y >>> 1)^[k] m = m >>> k :=
    iterate_of_succ BitVec.ushiftRight_zero fun k m => BitVec.shiftRight_add m k 1
  have hout : (x.1 >>> k).getLsbD 0 = x.1.getLsbD k := BitVec.getLsbD_ushiftRight ..
  rw [once_iterate, hshift, hshift, hout]

theorem signed_iterate :
    (once (BitVec.sshiftRight · 1) (BitVec.getLsbD · 0))^[k + 1] x
      = (x.1.sshiftRight (k + 1), (x.1.sshiftRight k).getLsbD 0) := by
  have hshift : ∀ (k : Nat) (m : BitVec w), (BitVec.sshiftRight · 1)^[k] m = m.sshiftRight k :=
    iterate_of_succ (fun _ => BitVec.sshiftRight_zero) fun _ _ => BitVec.sshiftRight_add
  rw [once_iterate, hshift, hshift]

theorem rotate_iterate (hw : 0 < w) :
    (once (BitVec.rotateRight · 1) (BitVec.getLsbD · 0))^[k + 1] x
      = (x.1.rotateRight (k + 1), x.1.getLsbD (k % w)) := by
  have hshift : ∀ (k : Nat) (m : BitVec w), (BitVec.rotateRight · 1)^[k] m = m.rotateRight k :=
    iterate_of_succ rotateRight_zero fun k m => (rotateRight_rotateRight m k 1).symm
  rw [once_iterate, hshift, hshift, getLsbD_rotateRight_mod _ _ hw, Nat.zero_add]

end

end BitShift
