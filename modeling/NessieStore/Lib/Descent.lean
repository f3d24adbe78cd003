import Mathlib.Data.List.Induction

/-!
# Descending a labelled forest

`next i n` is the node that the edge labelled `n` leads to from `i`, and `descend next i p` follows
the labels of `p` one by one. Some nodes are inner (`inner`): only they have edges, and in a `Forest`
each of them is reached by at most one edge and the root by none, so an inner node that is reached
from the root is reached in one way (`Forest.descend_inj`). Other nodes may be shared.

Two rules say what a change of the edges does. Where the edges are kept everywhere but below the end
of a path, the path still leads where it led (`Forest.descend_keep`). And where every edge of the
new forest is an old one or leads to one node `i`, what is reached in the new forest was reached in
the same way before, or was below `i` (`descend_grow`).
-/

set_option autoImplicit false

namespace NessieStore.Lib

variable {I N : Type*}

def descend (next : I → N → Option I) : I → List N → Option I
  | i, [] => some i
  | i, n :: p => (next i n).bind fun j => descend next j p

section Descend

variable {next next' : I → N → Option I} {a b : I}

@[simp] theorem descend_nil (next : I → N → Option I) (a : I) : descend next a [] = some a := rfl

@[simp] theorem descend_cons (next : I → N → Option I) (a : I) (n : N) (p : List N) :
    descend next a (n :: p) = (next a n).bind fun j => descend next j p := rfl

theorem descend_append (next : I → N → Option I) (a : I) (p q : List N) :
    descend next a (p ++ q) = (descend next a p).bind fun b => descend next b q := by
  induction p generalizing a with
  | nil => rfl
  | cons n p ih =>
    rw [List.cons_append, descend_cons, descend_cons, Option.bind_assoc]
    simp only [ih]

theorem descend_concat (next : I → N → Option I) (a : I) (p : List N) (n : N) :
    descend next a (p ++ [n]) = (descend next a p).bind fun b => next b n := by
  rw [descend_append]
  cases descend next a p with
  | none => rfl
  | some b =>
    show (next b n).bind (fun j => some j) = next b n
    exact Option.bind_fun_some _

/-- A path leads to `b` when its front leads somewhere and the rest leads from there to `b`. -/
theorem descend_append_eq_some {p q : List N} :
    descend next a (p ++ q) = some b ↔ ∃ c, descend next a p = some c ∧ descend next c q = some b := by
  rw [descend_append, Option.bind_eq_some_iff]

theorem descend_concat_eq_some {p : List N} {n : N} :
    descend next a (p ++ [n]) = some b ↔ ∃ c, descend next a p = some c ∧ next c n = some b := by
  rw [descend_concat, Option.bind_eq_some_iff]

/-- A set that no edge leaves holds every end of a path from inside it. -/
theorem descend_mem {S : Set I} (h : ∀ c ∈ S, ∀ n j, next c n = some j → j ∈ S) {p : List N}
    (ha : a ∈ S) (hp : descend next a p = some b) : b ∈ S := by
  induction p generalizing a with
  | nil =>
    cases hp
    exact ha
  | cons n p ih =>
    obtain ⟨j, hj, hrest⟩ := Option.bind_eq_some_iff.mp hp
    exact ih (h a ha n j hj) hrest

/-- Where no edge is new but those to `i`, a path leads where it led, or the end was below `i`. -/
theorem descend_grow {i : I}
    (h : ∀ c n j, next' c n = some j → next c n = some j ∨ j = i) {p : List N}
    (hp : descend next' a p = some b) :
    descend next a p = some b ∨ ∃ q, descend next i q = some b := by
  induction p generalizing a with
  | nil => exact .inl hp
  | cons n p ih =>
    obtain ⟨j, hj, hrest⟩ := Option.bind_eq_some_iff.mp hp
    rcases ih hrest with hold | hbelow
    · rcases h a n j hj with hedge | rfl
      · exact .inl (Option.bind_eq_some_iff.mpr ⟨j, hedge, hold⟩)
      · exact .inr ⟨p, hold⟩
    · exact .inr hbelow

/-- Where no edge is new, a path leads where it led. -/
theorem descend_shrink (h : ∀ c n j, next' c n = some j → next c n = some j) {p : List N}
    (hp : descend next' a p = some b) : descend next a p = some b := by
  induction p generalizing a with
  | nil => exact hp
  | cons n p ih =>
    obtain ⟨j, hj, hrest⟩ := Option.bind_eq_some_iff.mp hp
    exact Option.bind_eq_some_iff.mpr ⟨j, h a n j hj, ih hrest⟩

/-- Edges that are kept wherever the path passes keep the path. -/
theorem descend_kept {p : List N} (hp : descend next a p = some b)
    (h : ∀ q n r c j, p = q ++ n :: r → descend next a q = some c → next c n = some j →
      next' c n = some j) : descend next' a p = some b := by
  induction p generalizing a with
  | nil => exact hp
  | cons n p ih =>
    obtain ⟨j, hj, hrest⟩ := Option.bind_eq_some_iff.mp hp
    have hn : next' a n = some j := h [] n p a j rfl rfl hj
    refine Option.bind_eq_some_iff.mpr ⟨j, hn, ih hrest ?_⟩
    intro q m r c k hsplit hq hk
    refine h (n :: q) m r c k (by rw [hsplit, List.cons_append]) ?_ hk
    rw [descend_cons, hj]
    exact hq

end Descend

/-- Edges start at inner nodes only; one edge at most leads to an inner node, and none to the root. -/
structure Forest (next : I → N → Option I) (inner : I → Prop) (root : I) : Prop where
  starts : ∀ a n b, next a n = some b → inner a
  unique : ∀ a n a' n' b, next a n = some b → next a' n' = some b → inner b → a = a' ∧ n = n'
  root : ∀ a n, next a n ≠ some root

namespace Forest

variable {next next' : I → N → Option I} {inner : I → Prop} {root : I}

/-- An inner node is reached from the root in one way. -/
theorem descend_inj (h : Forest next inner root) {p q : List N} {b : I} (hb : inner b)
    (hp : descend next root p = some b) (hq : descend next root q = some b) : p = q := by
  induction p using List.reverseRecOn generalizing q b with
  | nil =>
    cases hp
    induction q using List.reverseRecOn with
    | nil => rfl
    | append_singleton q m _ =>
      obtain ⟨c, -, hc⟩ := descend_concat_eq_some.mp hq
      exact absurd hc (h.root c m)
  | append_singleton p n ih =>
    obtain ⟨c, hc, hn⟩ := descend_concat_eq_some.mp hp
    induction q using List.reverseRecOn with
    | nil =>
      cases hq
      exact absurd hn (h.root c n)
    | append_singleton q m _ =>
      obtain ⟨c', hc', hm⟩ := descend_concat_eq_some.mp hq
      obtain ⟨rfl, rfl⟩ := h.unique c n c' m b hn hm hb
      rw [ih (h.starts c n b hn) hc hc']

/-- A path from the root survives every change of the edges at and below its end. -/
theorem descend_keep (h : Forest next inner root) {p : List N} {b : I}
    (hp : descend next root p = some b)
    (hkeep : ∀ c n j, (∀ q, descend next b q ≠ some c) → next c n = some j → next' c n = some j) :
    descend next' root p = some b := by
  refine descend_kept hp ?_
  intro r n s c j hsplit hr hj
  refine hkeep c n j ?_ hj
  intro q hq
  have hd : descend next root (p ++ q) = some c := descend_append_eq_some.mpr ⟨b, hp, hq⟩
  have heq : r = p ++ q := h.descend_inj (h.starts c n j hj) hr hd
  have hlen := congrArg List.length hsplit
  rw [heq] at hlen
  simp only [List.length_append, List.length_cons] at hlen
  omega

end Forest

end NessieStore.Lib
