import Mathlib.Algebra.Group.Units.Equiv
import Mathlib.Data.BitVec

/-!
# The rounds of a bit mixer

A mixer of words is put together from rounds that lose nothing: the addition of a word, the
multiplication by a word that has an inverse, and the shift that folds the high bits of a word into
its low ones. Mathlib has the first two for every ring; the third is undone by repeating it, and
each repetition brings `k` more bits back, from the top down (`unshift_xorShift`).
-/

set_option autoImplicit false

namespace NessieStore.Lib

variable {w : Nat}

def xorShift (k : Nat) (z : BitVec w) : BitVec w := z ^^^ (z >>> k)

/-- What the shift left of the word, folded back `n` times. -/
def unshift (k : Nat) (y : BitVec w) : Nat → BitVec w
  | 0 => y
  | n + 1 => y ^^^ (unshift k y n >>> k)

/-- After `n` repetitions only what was shifted `n + 1` times is still wrong. -/
theorem unshift_xorShift (k n : Nat) (z : BitVec w) :
    unshift k (xorShift k z) n = z ^^^ (z >>> ((n + 1) * k)) := by
  induction n with
  | zero => rw [unshift, xorShift, Nat.zero_add, Nat.one_mul]
  | succ n ih =>
    rw [unshift, ih, xorShift, BitVec.ushiftRight_xor_distrib, ← BitVec.shiftRight_add,
      ← Nat.succ_mul, BitVec.xor_assoc, ← BitVec.xor_assoc (z >>> k), BitVec.xor_self,
      BitVec.zero_xor]

theorem unshift_succ (k n : Nat) (y : BitVec w) :
    unshift k y (n + 1) = unshift k y n ^^^ (y >>> ((n + 1) * k)) := by
  induction n with
  | zero => exact congrArg (fun m => y ^^^ (y >>> m)) (Nat.one_mul k).symm
  | succ n ih =>
    calc unshift k y (n + 1 + 1)
      _ = y ^^^ (unshift k y (n + 1) >>> k) := rfl
      _ = y ^^^ ((unshift k y n >>> k) ^^^ (y >>> ((n + 1 + 1) * k))) := by
        rw [ih, BitVec.ushiftRight_xor_distrib, ← BitVec.shiftRight_add, ← Nat.succ_mul]
      _ = unshift k y (n + 1) ^^^ (y >>> ((n + 1 + 1) * k)) := (BitVec.xor_assoc _ _ _).symm

theorem xorShift_bijective {k : Nat} (hk : 0 < k) :
    Function.Bijective (xorShift k : BitVec w → BitVec w) := by
  -- as many repetitions as the word has bits shift everything out
  have hout : ∀ z : BitVec w, z >>> ((w + 1) * k) = 0#w := by
    intro z
    refine BitVec.ushiftRight_eq_zero ?_
    calc w ≤ w + 1 := Nat.le_succ w
      _ ≤ (w + 1) * k := Nat.le_mul_of_pos_right _ hk
  refine Function.bijective_iff_has_inverse.mpr ⟨fun y => unshift k y w, ?_, ?_⟩
  · intro z
    dsimp only
    rw [unshift_xorShift, hout, BitVec.xor_zero]
  · intro y
    have hfixed : y ^^^ (unshift k y w >>> k) = unshift k y w := by
      rw [← unshift, unshift_succ, hout, BitVec.xor_zero]
    show unshift k y w ^^^ (unshift k y w >>> k) = y
    rw [← hfixed, BitVec.xor_assoc, hfixed, BitVec.xor_self, BitVec.xor_zero]

theorem add_bijective (a : BitVec w) : Function.Bijective fun z : BitVec w => z + a :=
  AddGroup.addRight_bijective a

/-- Multiplication by a word with an inverse. -/
theorem mul_bijective {a b : BitVec w} (h : a * b = 1) :
    Function.Bijective fun z : BitVec w => z * a :=
  (Units.mkOfMulEqOne a b h).mulRight_bijective

end NessieStore.Lib
