import Mathlib.Algebra.BigOperators.Group.Finset.Basic
import Mathlib.Order.Bounds.Defs

/-!
# Walking a graph with a stack

A walk visits every node that a set of seeds reaches: it takes a node off the stack, and the first
time it meets that node it puts the successors that it has not visited on top. `next` is any function
to lists, so children may be shared, edges may close cycles, and a node may be on the stack more than
once.

`walk` is the loop, on fuel. Where the graph is finite, enough fuel brings it to its end
(`walk_ends`), and what it ends with is the least set that has the seeds and is closed under `next`
(`walk_least`).
-/

set_option autoImplicit false

namespace NessieStore.Lib

variable {I : Type} [DecidableEq I]

/-- The stack after `i` was visited for the first time; its last successor is on top. -/
def push (next : I → List I) (visited : Finset I) (i : I) (stack : List I) : List I :=
  ((next i).filter (· ∉ insert i visited)).reverse ++ stack

/-- The loop, the top of the stack first; `none` when the fuel runs out. -/
def walk (next : I → List I) : Nat → Finset I → List I → Option (Finset I)
  | _, visited, [] => some visited
  | 0, _, _ :: _ => none
  | fuel + 1, visited, i :: stack =>
    if i ∈ visited then walk next fuel visited stack
    else walk next fuel (insert i visited) (push next visited i stack)

/-- The sets that have the seeds and every successor of a member. -/
def closedFrom (next : I → List I) (seed : List I) : Set (Set I) :=
  {S | (∀ i ∈ seed, i ∈ S) ∧ ∀ i ∈ S, ∀ j ∈ next i, j ∈ S}

/-! ## What the walk ends with -/

section Least

variable {next : I → List I} {seed : List I}

/-- What has been visited or is on the stack belongs to every closed set; the seeds are among it, and
so are the successors of what has been visited. -/
structure Walked (next : I → List I) (seed : List I) (visited : Finset I) (stack : List I) : Prop where
  visited_mem : ∀ S ∈ closedFrom next seed, ∀ i ∈ visited, i ∈ S
  stack_mem : ∀ S ∈ closedFrom next seed, ∀ i ∈ stack, i ∈ S
  seeds : ∀ i ∈ seed, i ∈ visited ∨ i ∈ stack
  edges : ∀ i ∈ visited, ∀ j ∈ next i, j ∈ visited ∨ j ∈ stack

omit [DecidableEq I] in
theorem Walked.start {stack : List I} (h : ∀ i, i ∈ stack ↔ i ∈ seed) : Walked next seed ∅ stack where
  visited_mem := by simp
  stack_mem S hS i hi := hS.1 i ((h i).mp hi)
  seeds i hi := .inr ((h i).mpr hi)
  edges := by simp

omit [DecidableEq I] in
/-- A node that was visited before is dropped. -/
theorem Walked.skip {visited : Finset I} {i : I} {stack : List I}
    (h : Walked next seed visited (i :: stack)) (hi : i ∈ visited) :
    Walked next seed visited stack := by
  have hcover : ∀ j, j ∈ visited ∨ j ∈ i :: stack → j ∈ visited ∨ j ∈ stack := by
    rintro j (hj | hj)
    · exact .inl hj
    · rcases List.mem_cons.mp hj with rfl | hj
      · exact .inl hi
      · exact .inr hj
  exact ⟨h.visited_mem, fun S hS j hj => h.stack_mem S hS j (List.mem_cons_of_mem i hj),
    fun j hj => hcover j (h.seeds j hj), fun j hj k hk => hcover k (h.edges j hj k hk)⟩

/-- A new node is visited, and its successors are visited or wait. -/
theorem Walked.visit {visited : Finset I} {i : I} {stack : List I}
    (h : Walked next seed visited (i :: stack)) :
    Walked next seed (insert i visited) (push next visited i stack) := by
  have hcover : ∀ j, j ∈ visited ∨ j ∈ i :: stack →
      j ∈ insert i visited ∨ j ∈ push next visited i stack := by
    rintro j (hj | hj)
    · exact .inl (Finset.mem_insert_of_mem hj)
    · rcases List.mem_cons.mp hj with rfl | hj
      · exact .inl (Finset.mem_insert_self j visited)
      · exact .inr (List.mem_append_right _ hj)
  refine ⟨?_, ?_, ?_, ?_⟩
  · intro S hS j hj
    rcases Finset.mem_insert.mp hj with rfl | hj
    · exact h.stack_mem S hS j List.mem_cons_self
    · exact h.visited_mem S hS j hj
  · intro S hS j hj
    rcases List.mem_append.mp hj with hj | hj
    · have hnext := List.mem_of_mem_filter (List.mem_reverse.mp hj)
      exact hS.2 i (h.stack_mem S hS i List.mem_cons_self) j hnext
    · exact h.stack_mem S hS j (List.mem_cons_of_mem i hj)
  · exact fun j hj => hcover j (h.seeds j hj)
  · intro j hj k hk
    rcases Finset.mem_insert.mp hj with rfl | hj
    · by_cases hvisited : k ∈ insert j visited
      · exact .inl hvisited
      · refine .inr (List.mem_append_left _ (List.mem_reverse.mpr ?_))
        exact List.mem_filter.mpr ⟨hk, decide_eq_true hvisited⟩
    · exact hcover k (h.edges j hj k hk)

omit [DecidableEq I] in
/-- With nothing left on the stack, what was visited is closed, and in every closed set. -/
theorem Walked.least {visited : Finset I} (h : Walked next seed visited []) :
    IsLeast (closedFrom next seed) (visited : Set I) := by
  refine ⟨⟨?_, ?_⟩, ?_⟩
  · intro i hi
    exact (h.seeds i hi).resolve_right List.not_mem_nil
  · intro i hi j hj
    exact (h.edges i hi j hj).resolve_right List.not_mem_nil
  · intro S hS i hi
    exact h.visited_mem S hS i hi

theorem walk_least {fuel : Nat} {visited out : Finset I} {stack : List I}
    (h : Walked next seed visited stack) (hrun : walk next fuel visited stack = some out) :
    IsLeast (closedFrom next seed) (out : Set I) := by
  fun_induction walk next fuel visited stack with
  | case1 fuel visited =>
    cases hrun
    exact h.least
  | case2 visited i stack => cases hrun
  | case3 fuel visited i stack hi ih => exact ih (h.skip hi) hrun
  | case4 fuel visited i stack hi ih => exact ih h.visit hrun

end Least

/-! ## That it ends -/

section Ends

variable {next : I → List I}

/-- What is left to do: the stack, and the successors of what has not been visited. -/
def workLeft (next : I → List I) (U visited : Finset I) (stack : List I) : Nat :=
  stack.length + ∑ i ∈ U \ visited, (next i).length

/-- A visit takes a node off the stack and pays for its successors. -/
theorem workLeft_visit (next : I → List I) (stack : List I) {U visited : Finset I} {i : I}
    (hU : i ∈ U) (hi : i ∉ visited) :
    workLeft next U (insert i visited) (push next visited i stack) <
      workLeft next U visited (i :: stack) := by
  have hsplit : ∑ j ∈ U \ visited, (next j).length =
      (next i).length + ∑ j ∈ U \ insert i visited, (next j).length := by
    have hmem : i ∈ U \ visited := Finset.mem_sdiff.mpr ⟨hU, hi⟩
    rw [← Finset.add_sum_erase _ _ hmem, Finset.sdiff_insert]
  have hlen := List.length_filter_le (· ∉ insert i visited) (next i)
  simp only [workLeft, push, hsplit, List.length_append, List.length_reverse, List.length_cons]
  omega

/-- In a finite graph enough fuel brings the walk to its end. -/
theorem walk_ends {U : Finset I} (hnext : ∀ i ∈ U, ∀ j ∈ next i, j ∈ U) {fuel : Nat}
    {visited : Finset I} {stack : List I} (hstack : ∀ i ∈ stack, i ∈ U)
    (hfuel : workLeft next U visited stack ≤ fuel) : ∃ out, walk next fuel visited stack = some out := by
  fun_induction walk next fuel visited stack with
  | case1 fuel visited => exact ⟨visited, rfl⟩
  | case2 visited i stack =>
    simp only [workLeft, List.length_cons] at hfuel
    omega
  | case3 fuel visited i stack hi ih =>
    refine ih (fun j hj => hstack j (List.mem_cons_of_mem i hj)) ?_
    simp only [workLeft, List.length_cons] at hfuel ⊢
    omega
  | case4 fuel visited i stack hi ih =>
    have hU := hstack i List.mem_cons_self
    refine ih ?_ ?_
    · intro j hj
      rcases List.mem_append.mp hj with hj | hj
      · exact hnext i hU j (List.mem_of_mem_filter (List.mem_reverse.mp hj))
      · exact hstack j (List.mem_cons_of_mem i hj)
    · have hless := workLeft_visit next stack hU hi
      omega

end Ends

end NessieStore.Lib
