import Mathlib.Algebra.BigOperators.Group.List.Basic
import Mathlib.Algebra.Ring.Nat
import Mathlib.Data.List.Basic

/-!
# Taking from a queue until enough is gone

`drain weight budget used queue` is what a loop takes that stops as soon as `used`, less the weights
of what it took, is within `budget`. It is a beginning of the queue (`drain_prefix`), nothing is taken
from a total that is within the budget (`drain_over`), and a total that stays above it costs the whole
queue (`drain_all`).
-/

set_option autoImplicit false

namespace NessieStore.Lib

variable {α : Type*} (weight : α → Nat)

def drain (budget : Nat) : Nat → List α → List α
  | _, [] => []
  | used, a :: queue => if used ≤ budget then [] else a :: drain budget (used - weight a) queue

variable {weight} {budget : Nat}

theorem drain_prefix (used : Nat) (queue : List α) : drain weight budget used queue <+: queue := by
  induction queue generalizing used with
  | nil => exact List.prefix_rfl
  | cons a queue ih =>
    rw [drain]
    by_cases h : used ≤ budget
    · rw [if_pos h]
      exact List.nil_prefix
    · rw [if_neg h]
      exact (List.prefix_cons_inj a).mpr (ih _)

/-- Whenever something is taken, what was taken before it was not enough. -/
theorem drain_over {used : Nat} {queue before after : List α} {a : α}
    (h : drain weight budget used queue = before ++ a :: after) :
    budget < used - (before.map weight).sum := by
  induction queue generalizing used before with
  | nil => simp [drain] at h
  | cons b queue ih =>
    rw [drain] at h
    by_cases hle : used ≤ budget
    · rw [if_pos hle] at h
      simp at h
    · rw [if_neg hle] at h
      cases before with
      | nil => simpa using hle
      | cons c before =>
        rw [List.cons_append, List.cons.injEq] at h
        obtain ⟨rfl, h⟩ := h
        have hrest := ih h
        rw [List.map_cons, List.sum_cons, Nat.sub_add_eq]
        exact hrest

/-- A total that stays above the budget has cost the whole queue. -/
theorem drain_all {used : Nat} {queue : List α}
    (h : budget < used - ((drain weight budget used queue).map weight).sum) :
    drain weight budget used queue = queue := by
  induction queue generalizing used with
  | nil => rfl
  | cons a queue ih =>
    rw [drain] at h ⊢
    by_cases hle : used ≤ budget
    · rw [if_pos hle] at h
      simp only [List.map_nil, List.sum_nil, Nat.sub_zero] at h
      omega
    · rw [if_neg hle] at h ⊢
      rw [List.map_cons, List.sum_cons, Nat.sub_add_eq] at h
      rw [ih h]

end NessieStore.Lib
