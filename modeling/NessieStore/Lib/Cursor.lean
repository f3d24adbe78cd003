import Mathlib.Data.List.Basic
import Mathlib.Order.Lattice

/-!
# Walking a sorted list round and round

A walk over a list that is sorted by a key, in bounded pieces. Between two pieces only the key of the
last element visited is kept: `resume` finds the place behind it, `behind` is the key to keep, and
past the end of the list the walk starts over. `lag n i p` counts the pieces that can still pass
before a walk of a list of length `n` that stands at `p` has visited position `i`: every piece that
visits something and not `i` lowers it (`lag_advance`, `lag_stale`), and it is at most `n`. `Rounds`
says of a sequence of pieces that each begins where the one before ended; between two ends such pieces
put together are the list (`Rounds.lap`).
-/

set_option autoImplicit false

namespace NessieStore.Lib

section Resume

variable {α β : Type*} [LinearOrder β] (key : α → β)

/-- Where a walk resumes: at the first element whose key is above the one kept. -/
def resume (l : List α) : Option β → Nat
  | none => 0
  | some after => (l.takeWhile fun x => decide (key x ≤ after)).length

/-- The key to keep after a piece that began at `start`: that of the last element visited, or none
when nothing was visited or the piece reached the end of a list of length `n`. -/
def behind (n start : Nat) (visited : List β) : Option β :=
  if start + visited.length < n then visited.getLast? else none

variable {key}

theorem resume_le (l : List α) (c : Option β) : resume key l c ≤ l.length := by
  cases c with
  | none => exact Nat.zero_le _
  | some after => exact (List.takeWhile_sublist _).length_le

/-- In a list with ascending keys, the walk resumes right behind the element whose key was kept. -/
theorem resume_append {front back : List α} {x : α}
    (h : (front ++ x :: back).Pairwise fun a b => key a < key b) :
    resume key (front ++ x :: back) (some (key x)) = front.length + 1 := by
  have hfront : ∀ a ∈ front ++ [x], decide (key a ≤ key x) = true := by
    intro a ha
    rcases List.mem_append.mp ha with ha | ha
    · exact decide_eq_true ((List.pairwise_append.mp h).2.2 a ha x List.mem_cons_self).le
    · rw [List.mem_singleton.mp ha]
      exact decide_eq_true le_rfl
  have hback : (back.takeWhile fun a => decide (key a ≤ key x)) = [] := by
    cases back with
    | nil => rfl
    | cons b back =>
      have hlt : key x < key b :=
        (List.pairwise_cons.mp (List.pairwise_append.mp h).2.1).1 b List.mem_cons_self
      exact List.takeWhile_cons_of_neg (by simpa using hlt)
  rw [List.append_cons]
  simp only [resume]
  rw [List.takeWhile_append_of_pos hfront, hback, List.append_nil, List.length_append,
    List.length_singleton]

/-- After a piece of `k` elements from `start`, the walk resumes behind it, or at the beginning. -/
theorem resume_behind {l : List α} (h : l.Pairwise fun a b => key a < key b) {start k : Nat}
    (hk : 0 < k) (hend : start + k ≤ l.length) :
    resume key l (behind l.length start (((l.drop start).take k).map key)) =
      if start + k < l.length then start + k else 0 := by
  have hlen : (((l.drop start).take k).map key).length = k := by
    rw [List.length_map, List.length_take, List.length_drop]
    omega
  unfold behind
  rw [hlen]
  split
  · next hlt =>
    obtain ⟨j, rfl⟩ : ∃ j, k = j + 1 := ⟨k - 1, by omega⟩
    have hj : start + j < l.length := by omega
    have hlast : (((l.drop start).take (j + 1)).map key).getLast? = some (key l[start + j]) := by
      rw [List.getLast?_eq_getElem?, hlen, List.getElem?_map, List.getElem?_take_of_lt (by omega),
        List.getElem?_drop, Nat.add_sub_cancel, List.getElem?_eq_getElem hj, Option.map_some]
    have hsplit : l.take (start + j) ++ l[start + j] :: l.drop (start + j + 1) = l := by
      rw [List.getElem_cons_drop, List.take_append_drop]
    have hascends := h
    rw [← hsplit] at hascends
    have hresume := resume_append hascends
    rw [hsplit, List.length_take, Nat.min_eq_left (Nat.le_of_lt hj)] at hresume
    rw [hlast, hresume, Nat.add_assoc]
  · rfl

end Resume

/-! ## How long a position can wait -/

/-- How many pieces may pass before position `i` of `n` is visited, from `p`; a walk that stands at
or past the end only starts over. -/
def lag (n i p : Nat) : Nat := if p ≤ i then i - p else if p < n then n - p + i else i + 1

theorem lag_le {n i : Nat} (hi : i < n) (p : Nat) : lag n i p ≤ n := by
  unfold lag
  split
  · omega
  · split <;> omega

/-- A piece that visits `k` elements, but not `i`, lowers the lag. -/
theorem lag_advance {n i p k : Nat} (hi : i < n) (hk : 0 < k) (hend : p + k ≤ n)
    (hmiss : ¬ (p ≤ i ∧ i < p + k)) :
    lag n i (if p + k < n then p + k else 0) < lag n i p := by
  unfold lag
  split <;> split <;> split <;> first | omega | (split <;> omega)

/-- So does starting over from past the end. -/
theorem lag_stale {n i p : Nat} (hi : i < n) (hp : n ≤ p) : lag n i 0 < lag n i p := by
  unfold lag
  rw [if_pos (Nat.zero_le _), if_neg (by omega), if_neg (by omega)]
  omega

/-! ## Rounds -/

section Rounds

variable {α : Type*}

/-- Pieces of `l`, the first from position `p`, each other from where the one before ended, or from
the beginning when that was the end of `l`. -/
inductive Rounds (l : List α) : Nat → List (List α) → Prop
  | nil (p : Nat) : Rounds l p []
  | cons {p k : Nat} {pieces : List (List α)} (hend : p + k ≤ l.length)
      (hrest : Rounds l (if p + k < l.length then p + k else 0) pieces) :
      Rounds l p ((l.drop p).take k :: pieces)

variable {l : List α}

theorem take_drop_suffix_iff (hnodup : l.Nodup) {p k : Nat} (hk : l ≠ [] → 0 < k)
    (hend : p + k ≤ l.length) : (l.drop p).take k <:+ l ↔ p + k = l.length := by
  constructor
  · intro hsuffix
    by_contra hne
    have hl : l ≠ [] := by
      rintro rfl
      simp only [List.length_nil] at hend hne
      omega
    have hpos := hk hl
    have hlen : ((l.drop p).take k).length = k := by
      rw [List.length_take, List.length_drop]
      omega
    have heq : (l.drop p).take k = l.drop (l.length - k) := by
      rw [List.suffix_iff_eq_drop.mp hsuffix, hlen]
    -- both begin with the same element, which stands in one place only
    have hhead : l[p]? = l[l.length - k]? := by
      have hfirst := congrArg (fun m => m[0]?) heq
      simpa [List.getElem?_take_of_lt hpos] using hfirst
    have hplace := (List.getElem?_inj (by omega) hnodup).mp hhead
    omega
  · intro heq
    rw [List.take_of_length_le (by rw [List.length_drop]; omega)]
    exact List.drop_suffix p l

namespace Rounds

/-- What follows a piece that came to the end begins at the beginning. -/
theorem restart (hnodup : l.Nodup) {p : Nat} {before after : List (List α)} {piece : List α}
    (hsome : l ≠ [] → ∀ r ∈ before ++ piece :: after, r ≠ [])
    (h : Rounds l p (before ++ piece :: after)) (hpiece : piece <:+ l) : Rounds l 0 after := by
  induction before generalizing p with
  | nil =>
    cases h with
    | @cons _ k _ hend hrest =>
      have hk : l ≠ [] → 0 < k := by
        intro hl
        by_contra hk
        obtain rfl : k = 0 := by omega
        exact hsome hl _ List.mem_cons_self (List.take_zero)
      have hlast := (take_drop_suffix_iff hnodup hk hend).mp hpiece
      rwa [if_neg (by omega)] at hrest
  | cons b before ih =>
    cases h with
    | cons hend hrest =>
      exact ih (fun hl r hr => hsome hl r (List.mem_cons_of_mem _ hr)) hrest

/-- From anywhere to the next end, the pieces make up the rest of the list. -/
theorem flatten_eq (hnodup : l.Nodup) {p : Nat} {pieces after : List (List α)} {last : List α}
    (hsome : l ≠ [] → ∀ r ∈ pieces ++ last :: after, r ≠ [])
    (h : Rounds l p (pieces ++ last :: after)) (hmid : ∀ r ∈ pieces, ¬ r <:+ l)
    (hlast : last <:+ l) : (pieces ++ [last]).flatten = l.drop p := by
  have hpos : ∀ k q, (l ≠ [] → (l.drop q).take k ≠ []) → l ≠ [] → 0 < k := by
    intro k q hne hl
    by_contra hk
    obtain rfl : k = 0 := by omega
    exact hne hl List.take_zero
  induction pieces generalizing p with
  | nil =>
    cases h with
    | @cons _ k _ hend hrest =>
      have hk := hpos k p fun hl => hsome hl _ List.mem_cons_self
      have hfull := (take_drop_suffix_iff hnodup hk hend).mp hlast
      rw [List.nil_append, List.flatten_singleton]
      exact List.take_of_length_le (by rw [List.length_drop]; omega)
  | cons piece pieces ih =>
    cases h with
    | @cons _ k _ hend hrest =>
      have hk := hpos k p fun hl => hsome hl _ List.mem_cons_self
      have hnot : p + k ≠ l.length := fun heq =>
        hmid _ List.mem_cons_self ((take_drop_suffix_iff hnodup hk hend).mpr heq)
      rw [if_pos (by omega)] at hrest
      have hflat := ih (fun hl r hr => hsome hl r (List.mem_cons_of_mem _ hr)) hrest
        fun r hr => hmid r (List.mem_cons_of_mem _ hr)
      rw [List.cons_append, List.flatten_cons, hflat, ← List.drop_drop, List.take_append_drop]

/-- Between two ends every element is visited once, in order. -/
theorem lap (hnodup : l.Nodup) {before pieces after : List (List α)} {last : List α}
    (h : Rounds l 0 (before ++ (pieces ++ last :: after)))
    (hsome : l ≠ [] → ∀ r ∈ before ++ (pieces ++ last :: after), r ≠ [])
    (hbegin : before = [] ∨ ∃ front piece, before = front ++ [piece] ∧ piece <:+ l)
    (hmid : ∀ r ∈ pieces, ¬ r <:+ l) (hlast : last <:+ l) : (pieces ++ [last]).flatten = l := by
  have hlater : l ≠ [] → ∀ r ∈ pieces ++ last :: after, r ≠ [] :=
    fun hl r hr => hsome hl r (List.mem_append_right _ hr)
  have hstart : Rounds l 0 (pieces ++ last :: after) := by
    rcases hbegin with rfl | ⟨front, piece, rfl, hpiece⟩
    · exact h
    · rw [List.append_assoc, List.singleton_append] at h hsome
      exact restart hnodup hsome h hpiece
  exact flatten_eq hnodup hlater hstart hmid hlast

end Rounds

end Rounds

end NessieStore.Lib
