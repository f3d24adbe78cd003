import Mathlib.Algebra.BigOperators.Group.Finset.Piecewise
import Mathlib.Algebra.Order.BigOperators.Group.Finset
import Mathlib.Algebra.Ring.Nat
import Mathlib.Data.List.Basic

/-!
# A pool of threads

Concurrent calls are a list of local states beside one shared state; a step picks an index and
moves that thread together with the shared state (`stepAt`). What an invariant needs of such a step
is three facts about replacing one element of a list: a property of all threads
(`forall_mem_set`), a property of some thread (`exists_mem_set`), and a sum over all threads
(`weigh_set`). `Pointwise` compares two such lists place by place.
-/

set_option autoImplicit false

namespace NessieStore.Lib

variable {S T : Type*}

/-- Thread `i` takes its step `f`; the others stand still. -/
def stepAt (f : S → T → Option (S × T)) (s : S) (ts : List T) (i : Nat) : Option (S × List T) :=
  match ts[i]? with
  | none => none
  | some t => (f s t).map fun r => (r.1, ts.set i r.2)

theorem stepAt_eq_some {f : S → T → Option (S × T)} {s : S} {ts : List T} {i : Nat}
    {r : S × List T} : stepAt f s ts i = some r ↔
      ∃ t s' t', ts[i]? = some t ∧ f s t = some (s', t') ∧ r = (s', ts.set i t') := by
  unfold stepAt
  cases h : ts[i]? with
  | none => simp
  | some t =>
    simp only [Option.map_eq_some_iff, Prod.exists, Option.some.injEq]
    constructor
    · rintro ⟨s', t', hf, hr⟩
      exact ⟨t, s', t', rfl, hf, hr.symm⟩
    · rintro ⟨_, s', t', rfl, hf, hr⟩
      exact ⟨s', t', hf, hr.symm⟩

/-- The list around one of its elements, before and after that element is replaced. -/
theorem split_set {ts : List T} {i : Nat} {t : T} (h : ts[i]? = some t) (t' : T) :
    ∃ l r, ts = l ++ t :: r ∧ ts.set i t' = l ++ t' :: r := by
  obtain ⟨hi, rfl⟩ := List.getElem?_eq_some_iff.mp h
  refine ⟨ts.take i, ts.drop (i + 1), ?_, ?_⟩
  · rw [← List.drop_eq_getElem_cons hi, List.take_append_drop]
  · rw [List.set_eq_take_append_cons_drop, if_pos hi]

/-- Replacing an element by itself changes nothing. -/
theorem set_eq_self {ts : List T} {i : Nat} {t : T} (h : ts[i]? = some t) : ts.set i t = ts := by
  obtain ⟨l, r, hts, hset⟩ := split_set h t
  rw [hset, ← hts]

theorem forall_mem_set {P : T → Prop} {ts : List T} {i : Nat} {t' : T}
    (h : ∀ t ∈ ts, P t) (ht : P t') : ∀ t ∈ ts.set i t', P t := by
  intro t hmem
  rcases List.mem_or_eq_of_mem_set hmem with hold | rfl
  · exact h t hold
  · exact ht

/-- A thread with property `P` remains, when the moving thread keeps `P` if it had it. -/
theorem exists_mem_set {P : T → Prop} {ts : List T} {i : Nat} {t t' : T} (hi : ts[i]? = some t)
    (ht : P t → P t') (h : ∃ u ∈ ts, P u) : ∃ u ∈ ts.set i t', P u := by
  obtain ⟨u, hu, hP⟩ := h
  obtain ⟨l, r, rfl, hset⟩ := split_set hi t'
  rw [hset]
  rcases List.mem_append.mp hu with hl | hr
  · exact ⟨u, List.mem_append_left _ hl, hP⟩
  · rcases List.mem_cons.mp hr with rfl | hr
    · exact ⟨t', by simp, ht hP⟩
    · exact ⟨u, List.mem_append_right _ (List.mem_cons_of_mem _ hr), hP⟩

theorem mem_set_of_getElem? {ts : List T} {i : Nat} {t t' : T} (hi : ts[i]? = some t) :
    t' ∈ ts.set i t' := by
  obtain ⟨l, r, rfl, hset⟩ := split_set hi t'
  simp [hset]

/-- Who is not replaced stays. -/
theorem eq_or_mem_set {ts : List T} {i : Nat} {t u : T} (hi : ts[i]? = some t) (hu : u ∈ ts) (t' : T) :
    u = t ∨ u ∈ ts.set i t' := by
  obtain ⟨l, r, rfl, hset⟩ := split_set hi t'
  rw [hset]
  simp only [List.mem_append, List.mem_cons] at hu ⊢
  tauto

theorem getElem?_set_cases {ts : List T} {i j : Nat} {t' u : T} (h : (ts.set i t')[j]? = some u) :
    j = i ∧ u = t' ∨ j ≠ i ∧ ts[j]? = some u := by
  by_cases hj : j = i
  · subst hj
    have hlt : j < ts.length := by
      obtain ⟨hlt, -⟩ := List.getElem?_eq_some_iff.mp h
      rwa [List.length_set] at hlt
    rw [List.getElem?_set_self hlt] at h
    exact .inl ⟨rfl, (Option.some.inj h).symm⟩
  · rw [List.getElem?_set_ne (Ne.symm hj)] at h
    exact .inr ⟨hj, h⟩

theorem getElem?_append_of_some {ts : List T} {i : Nat} {t : T} (h : ts[i]? = some t) (us : List T) :
    (ts ++ us)[i]? = some t := by
  rw [List.getElem?_append_left (List.getElem?_eq_some_iff.mp h).1, h]

theorem getElem?_concat_cases {ts : List T} {i : Nat} {t u : T} (h : (ts ++ [t])[i]? = some u) :
    ts[i]? = some u ∨ u = t := by
  rw [List.getElem?_append] at h
  split at h
  · exact .inl h
  · exact .inr (List.mem_singleton.mp (List.mem_of_getElem? h))

/-- Two lists of one length whose elements are related place by place. -/
structure Pointwise (R : Nat → T → T → Prop) (xs ys : List T) : Prop where
  length : ys.length = xs.length
  related : ∀ i t t', xs[i]? = some t → ys[i]? = some t' → R i t t'

namespace Pointwise

variable {R : Nat → T → T → Prop} {xs ys : List T}

/-- One element is replaced, the others are related to themselves. -/
theorem set (hrefl : ∀ i t, R i t t) {j : Nat} {t t' : T} (hj : xs[j]? = some t) (ht : R j t t') :
    Pointwise R xs (xs.set j t') where
  length := List.length_set
  related i u u' hu hu' := by
    rcases getElem?_set_cases hu' with ⟨rfl, rfl⟩ | ⟨-, hold⟩
    · cases hj.symm.trans hu
      exact ht
    · cases hu.symm.trans hold
      exact hrefl i u

theorem refl (hrefl : ∀ i t, R i t t) (xs : List T) : Pointwise R xs xs where
  length := rfl
  related i t t' ht ht' := by
    cases ht.symm.trans ht'
    exact hrefl i t

/-- The element that an element of the second list comes from. -/
theorem exists_left (h : Pointwise R xs ys) {i : Nat} {t' : T} (hi : ys[i]? = some t') :
    ∃ t, xs[i]? = some t ∧ R i t t' := by
  have hlt : i < xs.length := h.length ▸ (List.getElem?_eq_some_iff.mp hi).1
  exact ⟨xs[i], List.getElem?_eq_getElem hlt, h.related i _ t' (List.getElem?_eq_getElem hlt) hi⟩

theorem exists_right (h : Pointwise R xs ys) {i : Nat} {t : T} (hi : xs[i]? = some t) :
    ∃ t', ys[i]? = some t' ∧ R i t t' := by
  have hlt : i < ys.length := h.length ▸ (List.getElem?_eq_some_iff.mp hi).1
  exact ⟨ys[i], List.getElem?_eq_getElem hlt, h.related i t _ hi (List.getElem?_eq_getElem hlt)⟩

theorem trans {zs : List T} (htrans : ∀ i t u v, R i t u → R i u v → R i t v)
    (h : Pointwise R xs ys) (h' : Pointwise R ys zs) : Pointwise R xs zs where
  length := h'.length.trans h.length
  related i t v ht hv := by
    obtain ⟨u, hu, huv⟩ := h'.exists_left hv
    exact htrans i t u v (h.related i t u ht hu) huv

end Pointwise

/-- A sum over the threads. -/
def weigh (f : T → Nat) (ts : List T) : Nat := (ts.map f).sum

@[simp] theorem weigh_nil (f : T → Nat) : weigh f [] = 0 := rfl

@[simp] theorem weigh_cons (f : T → Nat) (t : T) (ts : List T) :
    weigh f (t :: ts) = f t + weigh f ts := by simp [weigh]

@[simp] theorem weigh_append (f : T → Nat) (ts us : List T) :
    weigh f (ts ++ us) = weigh f ts + weigh f us := by simp [weigh]

/-- Replacing a thread changes the sum by that thread's own part. -/
theorem weigh_set {f : T → Nat} {ts : List T} {i : Nat} {t : T} (hi : ts[i]? = some t) (t' : T) :
    weigh f (ts.set i t') + f t = weigh f ts + f t' := by
  obtain ⟨l, r, rfl, hset⟩ := split_set hi t'
  rw [hset]
  simp only [weigh_append, weigh_cons]
  omega

theorem weigh_le_weigh {f g : T → Nat} {ts : List T} (h : ∀ t ∈ ts, f t ≤ g t) :
    weigh f ts ≤ weigh g ts :=
  List.sum_le_sum h

/-- One thread's part is at most the whole. -/
theorem le_weigh {f : T → Nat} {ts : List T} {t : T} (h : t ∈ ts) : f t ≤ weigh f ts :=
  List.single_le_sum (by simp) _ (List.mem_map_of_mem h)

/-- Splitting a sum over the threads by a key of the thread loses nothing and counts nothing
twice. -/
theorem sum_weigh_key_le {K : Type*} [DecidableEq K] (f : T → Nat) (key : T → Option K)
    (ks : Finset K) (ts : List T) :
    ∑ k ∈ ks, weigh (fun t => if key t = some k then f t else 0) ts ≤ weigh f ts := by
  induction ts with
  | nil => simp
  | cons t ts ih =>
    have hhead : ∑ k ∈ ks, (if key t = some k then f t else 0) ≤ f t := by
      cases key t with
      | none => simp
      | some k₀ =>
        simp only [Option.some.injEq, Finset.sum_ite_eq]
        split <;> omega
    simp only [weigh_cons, Finset.sum_add_distrib]
    omega

end NessieStore.Lib
