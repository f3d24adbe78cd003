import Mathlib.Data.List.Basic

/-!
# Frames of a stream

A stream arrives in pieces that have nothing to do with the frames it is made of. `next` takes the
first frame off a list if the list holds all of it, and a frame that is complete stays the first one
however much follows (`stable`). `split` takes off every complete frame; what is left waits for more.

More bytes only add frames behind those that were complete (`split_append`), so the frames that a
receiver gets depend on the bytes alone and not on the pieces that they came in.
-/

set_option autoImplicit false

namespace NessieStore.Lib

structure Framing (B F : Type) where
  next : List B → Option (F × List B)
  shorter : ∀ {bytes : List B} {f : F} {rest : List B},
    next bytes = some (f, rest) → rest.length < bytes.length
  stable : ∀ {bytes : List B} {f : F} {rest : List B},
    next bytes = some (f, rest) → ∀ more, next (bytes ++ more) = some (f, rest ++ more)

namespace Framing

variable {B F : Type} (fr : Framing B F)

/-- At most `n` frames, and what is left. -/
def splitUpTo : Nat → List B → List F × List B
  | 0, bytes => ([], bytes)
  | n + 1, bytes =>
    match fr.next bytes with
    | none => ([], bytes)
    | some (f, rest) => (f :: (splitUpTo n rest).1, (splitUpTo n rest).2)

/-- Every complete frame, and what is left. A frame takes something, so there are no more frames than
bytes. -/
def split (bytes : List B) : List F × List B := fr.splitUpTo bytes.length bytes

theorem next_nil : fr.next [] = none := by
  cases h : fr.next [] with
  | none => rfl
  | some p => exact absurd (fr.shorter h) (Nat.not_lt_zero _)

theorem splitUpTo_of_le {n : Nat} {bytes : List B} (h : bytes.length ≤ n) :
    fr.splitUpTo n bytes = fr.split bytes := by
  have hboth : ∀ k m : Nat, ∀ bytes : List B, bytes.length ≤ k → bytes.length ≤ m →
      fr.splitUpTo k bytes = fr.splitUpTo m bytes := by
    intro k
    induction k with
    | zero =>
      intro m bytes hk _
      obtain rfl := List.length_eq_zero_iff.mp (Nat.le_zero.mp hk)
      cases m with
      | zero => rfl
      | succ m => simp only [splitUpTo, next_nil]
    | succ k ih =>
      intro m bytes hk hm
      cases m with
      | zero =>
        obtain rfl := List.length_eq_zero_iff.mp (Nat.le_zero.mp hm)
        simp only [splitUpTo, next_nil]
      | succ m =>
        cases hnext : fr.next bytes with
        | none => simp only [splitUpTo, hnext]
        | some p =>
          obtain ⟨f, rest⟩ := p
          have hlt := fr.shorter hnext
          simp only [splitUpTo, hnext, ih m rest (by omega) (by omega)]
  exact hboth n bytes.length bytes h (Nat.le_refl _)

theorem split_of_none {bytes : List B} (h : fr.next bytes = none) : fr.split bytes = ([], bytes) := by
  unfold split
  cases bytes.length with
  | zero => rfl
  | succ n => simp only [splitUpTo, h]

theorem split_of_some {bytes rest : List B} {f : F} (h : fr.next bytes = some (f, rest)) :
    fr.split bytes = (f :: (fr.split rest).1, (fr.split rest).2) := by
  have hlt := fr.shorter h
  rw [← fr.splitUpTo_of_le (Nat.le_succ bytes.length)]
  simp only [splitUpTo, h, fr.splitUpTo_of_le (Nat.le_of_lt hlt)]

/-- What is left holds no complete frame. -/
theorem next_split (bytes : List B) : fr.next (fr.split bytes).2 = none := by
  induction hn : bytes.length using Nat.strongRecOn generalizing bytes with
  | ind n ih =>
    cases hnext : fr.next bytes with
    | none => rw [fr.split_of_none hnext, hnext]
    | some p =>
      obtain ⟨f, rest⟩ := p
      rw [fr.split_of_some hnext]
      exact ih rest.length (hn ▸ fr.shorter hnext) rest rfl

/-- More bytes add frames behind those that were complete. -/
theorem split_append (bytes more : List B) :
    fr.split (bytes ++ more) =
      ((fr.split bytes).1 ++ (fr.split ((fr.split bytes).2 ++ more)).1,
        (fr.split ((fr.split bytes).2 ++ more)).2) := by
  induction hn : bytes.length using Nat.strongRecOn generalizing bytes with
  | ind n ih =>
    cases hnext : fr.next bytes with
    | none =>
      rw [fr.split_of_none hnext]
      rfl
    | some p =>
      obtain ⟨f, rest⟩ := p
      rw [fr.split_of_some (fr.stable hnext more), fr.split_of_some hnext,
        ih rest.length (hn ▸ fr.shorter hnext) rest rfl]
      rfl

end Framing

end NessieStore.Lib
