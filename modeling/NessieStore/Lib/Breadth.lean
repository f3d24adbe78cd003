import Mathlib.Data.Finset.Card
import Mathlib.Data.List.Forall2
import Mathlib.Order.Lattice.Nat

/-!
# Walking a graph with a queue

A breadth-first walk: take a node off the front of the queue and, the first time that it is met, put
its successors at the end. The queue may hold a node more than once; the test is made when it is
taken off. Looking at a node may fail, which ends the walk.

Only finitely many nodes can be looked at (`Lookup.held`), so the walk ends. The edges are any
relation that looking agrees with. Where looking does not fail, the walk meets every node that the root
reaches once, the nearer ones first (`sweep_eq`). The queue always spans two neighbouring distances,
and everything nearer has been met: that is the invariant (`Swept`).
-/

set_option autoImplicit false

namespace NessieStore.Lib

variable {α β ε : Type*}

/-- A graph that is looked at node by node: a value and the successors, or an error. -/
structure Lookup (α β ε : Type*) where
  look : α → Except ε (β × List α)
  held : Finset α
  mem_held : ∀ {a r}, look a = .ok r → a ∈ held

/-- The loop: what was met, what waits, and what looking has given so far. -/
def Lookup.sweep [DecidableEq α] (g : Lookup α β ε) (visited : Finset α) (queue : List α) (out : List β) :
    Except ε (List β) :=
  match queue with
  | [] => .ok out
  | a :: queue =>
    if _hmet : a ∈ visited then g.sweep visited queue out
    else
      match _hlook : g.look a with
      | .error e => .error e
      | .ok (b, next) => g.sweep (insert a visited) (queue ++ next) (out ++ [b])
termination_by ((g.held \ visited).card, queue.length)
decreasing_by
  · exact Prod.Lex.right _ (by simp)
  · refine Prod.Lex.left _ _ (Finset.card_lt_card ?_)
    have hmem : a ∈ g.held \ visited := Finset.mem_sdiff.mpr ⟨g.mem_held _hlook, _hmet⟩
    rw [Finset.sdiff_insert]
    exact Finset.erase_ssubset hmem

/-! ## Distances -/

section Distance

variable (edge : α → α → Prop) (root : α)

/-- A path of this length leads from the root to a node. -/
def At : Nat → α → Prop
  | 0, a => a = root
  | n + 1, a => ∃ p, At n p ∧ edge p a

def Reaches (a : α) : Prop := ∃ n, At edge root n a

/-- The length of a shortest path. -/
noncomputable def distance (a : α) : Nat := sInf {n | At edge root n a}

variable {edge root}

theorem distance_le {n : Nat} {a : α} (h : At edge root n a) : distance edge root a ≤ n :=
  Nat.sInf_le h

theorem at_distance {n : Nat} {a : α} (h : At edge root n a) : At edge root (distance edge root a) a :=
  Nat.sInf_mem (s := {n | At edge root n a}) ⟨n, h⟩

/-- What the root reaches lies in every set that has it and is closed under the edges. -/
theorem Reaches.mem {S : Set α} {a : α} (h : Reaches edge root a) (hroot : root ∈ S)
    (hedge : ∀ b ∈ S, ∀ c, edge b c → c ∈ S) : a ∈ S := by
  obtain ⟨n, hn⟩ := h
  induction n generalizing a with
  | zero =>
    rw [show a = root from hn]
    exact hroot
  | succ n ih =>
    obtain ⟨p, hp, ha⟩ := hn
    exact hedge p (ih hp) a ha

end Distance

/-! ## The invariant -/

/-- A walk that has met `order` and has reached distance `n`: what waits of that distance is `near`,
what waits of the next one is `far`. -/
structure Swept (edge : α → α → Prop) (root : α) (n : Nat) (order near far : List α) : Prop where
  nodup : order.Nodup
  ascending : order.Pairwise fun a b => distance edge root a ≤ distance edge root b
  met : ∀ a ∈ order, ∃ m ≤ n, At edge root m a
  near_at : ∀ a ∈ near, At edge root n a
  far_at : ∀ a ∈ far, At edge root (n + 1) a
  inside : ∀ m < n, ∀ a, At edge root m a → a ∈ order
  front : ∀ a, At edge root n a → a ∈ order ∨ a ∈ near
  edges : ∀ a ∈ order, ∀ b, edge a b → b ∈ order ∨ b ∈ near ∨ b ∈ far

namespace Swept

variable {edge : α → α → Prop} {root : α} {n : Nat} {order near far : List α} {a : α}

theorem start : Swept edge root 0 [] [root] [] where
  nodup := List.nodup_nil
  ascending := List.Pairwise.nil
  met := by simp
  near_at a ha := List.mem_singleton.mp ha
  far_at := by simp
  inside m hm := absurd hm (Nat.not_lt_zero m)
  front a ha := .inr (List.mem_singleton.mpr ha)
  edges := by simp

/-- What was met before is dropped. -/
theorem skip (h : Swept edge root n order (a :: near) far) (ha : a ∈ order) :
    Swept edge root n order near far := by
  have hnear : ∀ b, b ∈ a :: near → b ∈ order ∨ b ∈ near := by
    intro b hb
    rcases List.mem_cons.mp hb with rfl | hb
    · exact .inl ha
    · exact .inr hb
  refine { h with near_at := ?_, front := ?_, edges := ?_ }
  · exact fun b hb => h.near_at b (List.mem_cons_of_mem a hb)
  · exact fun b hb => (h.front b hb).elim .inl (hnear b)
  · intro b hb c hc
    rcases h.edges b hb c hc with hc | hc | hc
    · exact .inl hc
    · exact (hnear c hc).imp id .inl
    · exact .inr (.inr hc)

/-- What is new is at distance `n`, no nearer than anything met so far. -/
theorem visit (h : Swept edge root n order (a :: near) far) (ha : a ∉ order) {children : List α}
    (hchildren : ∀ b, b ∈ children ↔ edge a b) :
    Swept edge root n (order ++ [a]) near (far ++ children) := by
  have hat := h.near_at a List.mem_cons_self
  have hdistance : n ≤ distance edge root a := by
    by_contra hlt
    exact ha (h.inside _ (not_le.mp hlt) a (at_distance hat))
  have hnear : ∀ b, b ∈ a :: near → b ∈ order ++ [a] ∨ b ∈ near := by
    intro b hb
    rcases List.mem_cons.mp hb with rfl | hb
    · exact .inl (by simp)
    · exact .inr hb
  constructor
  · rw [List.nodup_append]
    refine ⟨h.nodup, List.nodup_singleton a, ?_⟩
    rintro b hb c hc rfl
    rw [List.mem_singleton.mp hc] at hb
    exact ha hb
  · rw [List.pairwise_append]
    refine ⟨h.ascending, List.pairwise_singleton _ a, ?_⟩
    intro b hb c hc
    rw [List.mem_singleton.mp hc]
    obtain ⟨m, hm, hb⟩ := h.met b hb
    exact (distance_le hb).trans (hm.trans hdistance)
  · rw [List.forall_mem_append, List.forall_mem_singleton]
    exact ⟨h.met, n, le_rfl, hat⟩
  · exact fun b hb => h.near_at b (List.mem_cons_of_mem a hb)
  · rw [List.forall_mem_append]
    exact ⟨h.far_at, fun b hb => ⟨a, hat, (hchildren b).mp hb⟩⟩
  · exact fun m hm b hb => List.mem_append_left _ (h.inside m hm b hb)
  · intro b hb
    rcases h.front b hb with hb | hb
    · exact .inl (List.mem_append_left _ hb)
    · exact hnear b hb
  · rw [List.forall_mem_append, List.forall_mem_singleton]
    constructor
    · intro b hb c hc
      rcases h.edges b hb c hc with hc | hc | hc
      · exact .inl (List.mem_append_left _ hc)
      · exact (hnear c hc).imp id .inl
      · exact .inr (.inr (List.mem_append_left _ hc))
    · exact fun c hc => .inr (.inr (List.mem_append_right _ ((hchildren c).mpr hc)))

/-- With nothing left at distance `n`, the walk has come to the next one. -/
theorem level (h : Swept edge root n order [] far) : Swept edge root (n + 1) order far [] := by
  have hfront : ∀ a, At edge root n a → a ∈ order := fun a ha =>
    (h.front a ha).resolve_right List.not_mem_nil
  have hedges : ∀ a ∈ order, ∀ b, edge a b → b ∈ order ∨ b ∈ far := fun a ha b hb =>
    (h.edges a ha b hb).imp id fun hb => hb.resolve_left List.not_mem_nil
  refine { h with met := ?_, near_at := h.far_at, far_at := by simp, inside := ?_, front := ?_, edges := ?_ }
  · intro a ha
    obtain ⟨m, hm, ha⟩ := h.met a ha
    exact ⟨m, Nat.le_succ_of_le hm, ha⟩
  · intro m hm a ha
    rcases Nat.lt_succ_iff_lt_or_eq.mp hm with hm | rfl
    · exact h.inside m hm a ha
    · exact hfront a ha
  · rintro a ⟨p, hp, ha⟩
    exact hedges p (hfront p hp) a ha
  · exact fun a ha b hb => (hedges a ha b hb).imp id .inl

/-- What is at the front of the queue is at the distance that the walk has reached, or begins the next
one. -/
theorem of_cons {queue : List α} (h : Swept edge root n order near far)
    (hqueue : a :: queue = near ++ far) :
    ∃ m near' far', Swept edge root m order (a :: near') far' ∧ queue = near' ++ far' := by
  cases near with
  | cons b near =>
    obtain ⟨rfl, rfl⟩ := List.cons.inj hqueue
    exact ⟨n, near, far, h, rfl⟩
  | nil =>
    rw [List.nil_append] at hqueue
    subst hqueue
    exact ⟨n + 1, queue, [], h.level, (List.append_nil queue).symm⟩

/-- With nothing left at all, everything that the root reaches has been met. -/
theorem complete (h : Swept edge root n order [] []) (a : α) : a ∈ order ↔ Reaches edge root a := by
  constructor
  · intro ha
    obtain ⟨m, -, ha⟩ := h.met a ha
    exact ⟨m, ha⟩
  · rintro ⟨m, ha⟩
    induction m generalizing a with
    | zero =>
      rcases Nat.eq_zero_or_pos n with rfl | hn
      · exact (h.front a ha).resolve_right List.not_mem_nil
      · exact h.inside 0 hn a ha
    | succ m ih =>
      obtain ⟨p, hp, ha⟩ := ha
      have hcovered := h.edges p (ih p hp) a ha
      simpa using hcovered

end Swept

/-! ## The walk -/

namespace Lookup

variable {g : Lookup α β ε}

/-- Looking at a node gives this value. -/
def Gives (g : Lookup α β ε) (a : α) (b : β) : Prop := ∃ children, g.look a = .ok (b, children)

variable [DecidableEq α] {edge : α → α → Prop} {root : α}

section Steps

variable {visited : Finset α} {a : α}

theorem sweep_met (h : a ∈ visited) (queue : List α) (out : List β) :
    g.sweep visited (a :: queue) out = g.sweep visited queue out := by
  rw [sweep, dif_pos h]

theorem sweep_new (h : a ∉ visited) {b : β} {children : List α} (hlook : g.look a = .ok (b, children))
    (queue : List α) (out : List β) :
    g.sweep visited (a :: queue) out = g.sweep (insert a visited) (queue ++ children) (out ++ [b]) := by
  rw [sweep, dif_neg h]
  split
  · next hfail => rw [hlook] at hfail; cases hfail
  · next hok => rw [hlook] at hok; cases hok; rfl

end Steps

/-- Where looking does not fail, it lists the edges. -/
def Follows (g : Lookup α β ε) (edge : α → α → Prop) : Prop :=
  ∀ a b children, g.look a = .ok (b, children) → ∀ c, c ∈ children ↔ edge a c

/-- The walk from a state that the invariant describes, by induction on its steps. -/
theorem sweep_swept (hedge : g.Follows edge) (hlook : ∀ a, Reaches edge root a → ∃ r, g.look a = .ok r)
    {n : Nat} {order near far : List α} (h : Swept edge root n order near far) {visited : Finset α}
    (hvisited : ∀ a, a ∈ visited ↔ a ∈ order) {queue : List α} (hqueue : queue = near ++ far)
    {out : List β} (hout : List.Forall₂ g.Gives order out) :
    ∃ m order' out', Swept edge root m order' [] [] ∧ List.Forall₂ g.Gives order' out' ∧
      g.sweep visited queue out = .ok out' := by
  fun_induction Lookup.sweep g visited queue out generalizing n order near far with
  | case1 visited out =>
    obtain ⟨rfl, rfl⟩ := List.append_eq_nil_iff.mp hqueue.symm
    exact ⟨n, order, out, h, hout, rfl⟩
  | case2 visited out a queue hmet ih =>
    obtain ⟨m, near, far, h, rfl⟩ := h.of_cons hqueue
    exact ih (h.skip ((hvisited a).mp hmet)) hvisited rfl hout
  | case3 visited out a queue hmet e hfail =>
    obtain ⟨m, near, far, h, rfl⟩ := h.of_cons hqueue
    obtain ⟨r, hr⟩ := hlook a ⟨m, h.near_at a List.mem_cons_self⟩
    rw [hfail] at hr
    cases hr
  | case4 visited out a queue hmet b children hok ih =>
    obtain ⟨m, near, far, h, rfl⟩ := h.of_cons hqueue
    have hvisit := h.visit (fun ha => hmet ((hvisited a).mpr ha)) (hedge a b children hok)
    refine ih hvisit ?_ (List.append_assoc near far children) ?_
    · intro c
      rw [Finset.mem_insert, hvisited c, List.mem_append, List.mem_singleton, or_comm]
    · exact List.rel_append hout (.cons ⟨children, hok⟩ .nil)

/-- **The walk meets every node that the root reaches once, the nearer ones first.** -/
theorem sweep_eq (hedge : g.Follows edge) (hlook : ∀ a, Reaches edge root a → ∃ r, g.look a = .ok r) :
    ∃ order out, order.Nodup ∧ (∀ a, a ∈ order ↔ Reaches edge root a) ∧
      (order.Pairwise fun a b => distance edge root a ≤ distance edge root b) ∧
      List.Forall₂ g.Gives order out ∧ g.sweep ∅ [root] [] = .ok out := by
  have hwalk : ∃ m order out, Swept edge root m order [] [] ∧ List.Forall₂ g.Gives order out ∧
      g.sweep ∅ [root] [] = .ok out := sweep_swept hedge hlook .start (by simp) rfl .nil
  obtain ⟨m, order, out, h, hout, hsweep⟩ := hwalk
  exact ⟨order, out, h.nodup, h.complete, h.ascending, hout, hsweep⟩

end Lookup

end NessieStore.Lib
