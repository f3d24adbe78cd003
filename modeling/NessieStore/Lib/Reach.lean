import Mathlib.Data.List.Basic
import Mathlib.Data.List.Count

/-!
# A walk that stops when it has seen enough

A loop that goes through a list until `t` elements have been accepted, passing over the others, splits
the list in two: what it has looked at and what it never reaches (`reach`). Counting over the first
part is how much the loop got done; `countP_add_congr` compares such counts element by element.
-/

set_option autoImplicit false

namespace NessieStore.Lib

variable {α : Type*}

/-- Cut a list behind the `t`th element that `c` accepts; all of it is in front when there are
fewer. -/
def reach (c : α → Bool) : Nat → List α → List α × List α
  | 0, l => ([], l)
  | _ + 1, [] => ([], [])
  | t + 1, a :: l =>
    let r := reach c (if c a then t else t + 1) l
    (a :: r.1, r.2)

@[simp] theorem reach_zero (c : α → Bool) (l : List α) : reach c 0 l = ([], l) := by
  cases l <;> rfl

theorem reach_cons_true {c : α → Bool} {a : α} (h : c a = true) (t : Nat) (l : List α) :
    reach c (t + 1) (a :: l) = (a :: (reach c t l).1, (reach c t l).2) := by
  simp [reach, h]

theorem reach_cons_false {c : α → Bool} {a : α} (h : c a = false) (t : Nat) (l : List α) :
    reach c (t + 1) (a :: l) = (a :: (reach c (t + 1) l).1, (reach c (t + 1) l).2) := by
  simp [reach, h]

theorem reach_append (c : α → Bool) (t : Nat) (l : List α) :
    (reach c t l).1 ++ (reach c t l).2 = l := by
  induction l generalizing t with
  | nil => cases t <;> rfl
  | cons a l ih =>
    cases t with
    | zero => rfl
    | succ t => exact congrArg (a :: ·) (ih _)

/-- No more than `t` are accepted in front. -/
theorem countP_reach_le (c : α → Bool) (t : Nat) (l : List α) :
    (reach c t l).1.countP c ≤ t := by
  induction l generalizing t with
  | nil => cases t <;> simp [reach]
  | cons a l ih =>
    cases t with
    | zero => simp
    | succ t =>
      cases h : c a with
      | true =>
        rw [reach_cons_true h, List.countP_cons_of_pos h]
        exact Nat.succ_le_succ (ih t)
      | false =>
        rw [reach_cons_false h, List.countP_cons_of_neg (by simp [h])]
        exact ih (t + 1)

/-- Two pairs of predicates that hold equally often of each element do so on the whole list. -/
theorem countP_add_congr {f g h k : α → Bool} {l : List α}
    (hl : ∀ a ∈ l, (f a).toNat + (g a).toNat = (h a).toNat + (k a).toNat) :
    l.countP f + l.countP g = l.countP h + l.countP k := by
  have htoNat : ∀ b : Bool, (if b = true then 1 else 0) = b.toNat := by decide
  induction l with
  | nil => rfl
  | cons a l ih =>
    have hrest := ih fun b hb => hl b (List.mem_cons_of_mem _ hb)
    have hhead := hl a List.mem_cons_self
    simp only [List.countP_cons, htoNat]
    omega

end NessieStore.Lib
