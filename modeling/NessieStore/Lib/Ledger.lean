import Mathlib.Algebra.BigOperators.Group.Finset.Basic
import Mathlib.Algebra.Order.BigOperators.Group.Finset
import Mathlib.Algebra.Ring.Nat
import Mathlib.Data.Finmap

/-!
# Finite maps with a total

`Map K V` is a finite map from `K` to `V`, and `total f m` adds `f` over its values: the bytes of a
directory when `V` holds file contents, the sum of a table of charges when `V` is `Nat`. Two
equations carry the arithmetic of every update: inserting counts the new value beside the map
without the key (`total_insert`), and a key's value with the map without the key is the whole
(`total_erase`). A listing is what enumerating a map returns: each key once, in no particular order
(`Lists`); `insertAll` rebuilds the map from one.
-/

set_option autoImplicit false

namespace NessieStore.Lib

variable {K V : Type*}

/-- A finite map. -/
abbrev Map (K V : Type*) := Finmap fun _ : K => V

namespace Map

/-- The entries that `p` holds of. -/
def retain (m : Map K V) (p : K → V → Bool) : Map K V where
  entries := m.entries.filter fun e => p e.1 e.2
  nodupKeys := by
    rw [← Multiset.nodup_keys]
    exact Multiset.nodup_of_le (Multiset.map_le_map (Multiset.filter_le _ _))
      (Multiset.nodup_keys.mpr m.nodupKeys)

variable [DecidableEq K]

theorem lookup_insert_eq (m : Map K V) (k k' : K) (v : V) :
    (m.insert k v).lookup k' = if k' = k then some v else m.lookup k' := by
  split
  · next h => rw [h, Finmap.lookup_insert]
  · next h => exact Finmap.lookup_insert_of_ne m h

theorem lookup_erase_eq (m : Map K V) (k k' : K) :
    (m.erase k).lookup k' = if k' = k then none else m.lookup k' := by
  split
  · next h => rw [h, Finmap.lookup_erase]
  · next h => exact Finmap.lookup_erase_ne h

theorem isSome_lookup_insert {m : Map K V} {k k' : K} {v : V} (h : (m.lookup k').isSome) :
    ((m.insert k v).lookup k').isSome := by
  rw [lookup_insert_eq]
  split
  · rfl
  · exact h

theorem mem_keys_iff {m : Map K V} {k : K} : k ∈ m.keys ↔ (m.lookup k).isSome := by
  rw [Finmap.mem_keys, Finmap.lookup_isSome]

theorem keys_insert (m : Map K V) (k : K) (v : V) : (m.insert k v).keys = insert k m.keys := by
  ext k'
  rw [Finset.mem_insert, Finmap.mem_keys, Finmap.mem_insert, Finmap.mem_keys]

theorem lookup_retain_eq_some {m : Map K V} {p : K → V → Bool} {k : K} {v : V} :
    (m.retain p).lookup k = some v ↔ m.lookup k = some v ∧ p k v = true := by
  rw [← Option.mem_def, Finmap.mem_lookup_iff, ← Option.mem_def, Finmap.mem_lookup_iff]
  exact Multiset.mem_filter

theorem keys_retain (m : Map K V) (p : K → Bool) :
    (m.retain fun k _ => p k).keys = m.keys.filter fun k => p k = true := by
  ext k
  simp only [Finset.mem_filter, mem_keys_iff, Option.isSome_iff_exists, lookup_retain_eq_some,
    exists_and_right]

/-- A binding that is there is not changed by inserting it. -/
theorem insert_self {m : Map K V} {k : K} {v : V} (h : m.lookup k = some v) : m.insert k v = m := by
  refine Finmap.ext_lookup fun k' => ?_
  rw [lookup_insert_eq]
  split
  · next heq => rw [heq, h]
  · rfl

/-- The sum of `f` over the values. -/
def total (f : V → Nat) (m : Map K V) : Nat := ∑ k ∈ m.keys, (m.lookup k).elim 0 f

@[simp] theorem total_empty (f : V → Nat) : total f (∅ : Map K V) = 0 := by
  simp [total]

theorem total_erase {f : V → Nat} {m : Map K V} {k : K} {v : V} (h : m.lookup k = some v) :
    total f (m.erase k) + f v = total f m := by
  have hk : k ∈ m.keys := Finmap.mem_keys.mpr (Finmap.mem_of_lookup_eq_some h)
  have hrest : total f (m.erase k) = ∑ k' ∈ m.keys.erase k, (m.lookup k').elim 0 f := by
    unfold total
    rw [Finmap.keys_erase]
    refine Finset.sum_congr rfl fun k' hk' => ?_
    rw [Finmap.lookup_erase_ne (Finset.ne_of_mem_erase hk')]
  have hv : (m.lookup k).elim 0 f = f v := by rw [h]; rfl
  rw [hrest, ← hv, Finset.sum_erase_add _ _ hk]
  rfl

theorem total_erase_of_none {f : V → Nat} {m : Map K V} {k : K} (h : m.lookup k = none) :
    total f (m.erase k) = total f m := by
  have hm : m.erase k = m := Finmap.ext_lookup fun k' => by
    rw [lookup_erase_eq]
    split
    · next hk => rw [hk, h]
    · rfl
  rw [hm]

theorem total_insert (f : V → Nat) (m : Map K V) (k : K) (v : V) :
    total f (m.insert k v) = total f (m.erase k) + f v := by
  have herase : (m.insert k v).erase k = m.erase k := Finmap.ext_lookup fun k' => by
    simp only [lookup_erase_eq, lookup_insert_eq]
    split <;> rfl
  rw [← herase, total_erase (Finmap.lookup_insert m)]

theorem total_insert_new {f : V → Nat} {m : Map K V} {k : K} (h : m.lookup k = none) (v : V) :
    total f (m.insert k v) = total f m + f v := by
  rw [total_insert, total_erase_of_none h]

theorem total_insert_old {f : V → Nat} {m : Map K V} {k : K} {w : V} (h : m.lookup k = some w)
    (v : V) : total f (m.insert k v) + f w = total f m + f v := by
  rw [total_insert, ← total_erase h]
  omega

/-- One total is at most another plus a per-key allowance. -/
theorem total_le_of_lookup {W : Type*} {f : V → Nat} {g : W → Nat} {m : Map K V} {n : Map K W}
    (extra : K → Nat) (h : ∀ k v, m.lookup k = some v → f v ≤ (n.lookup k).elim 0 g + extra k) :
    total f m ≤ total g n + ∑ k ∈ m.keys, extra k := by
  have hcover : total f m ≤ ∑ k ∈ m.keys, ((n.lookup k).elim 0 g + extra k) := by
    refine Finset.sum_le_sum fun k hk => ?_
    obtain ⟨v, hv⟩ := Finmap.mem_iff.mp (Finmap.mem_keys.mp hk)
    simpa only [hv, Option.elim_some] using h k v hv
  have hinside : ∑ k ∈ m.keys, (n.lookup k).elim 0 g ≤ total g n := by
    refine Finset.sum_le_sum_of_ne_zero fun k _ hk => ?_
    cases hn : n.lookup k with
    | none => rw [hn] at hk; exact absurd rfl hk
    | some w => exact Finmap.mem_keys.mpr (Finmap.mem_of_lookup_eq_some hn)
  rw [Finset.sum_add_distrib] at hcover
  omega

/-- Equal lookups, value by value, give equal totals. -/
theorem total_congr {W : Type*} {f : V → Nat} {g : W → Nat} {m : Map K V} {n : Map K W}
    (h : ∀ k, (m.lookup k).map f = (n.lookup k).map g) : total f m = total g n := by
  have helim : ∀ k, (m.lookup k).elim 0 f = (n.lookup k).elim 0 g := fun k => by
    have hk := h k
    cases hm : m.lookup k <;> cases hn : n.lookup k <;> simp_all
  have hle := total_le_of_lookup (f := f) (g := g) (m := m) (n := n) (fun _ => 0)
    fun k v hv => by
      have hk := helim k
      rw [hv] at hk
      simpa using hk.le
  have hge := total_le_of_lookup (f := g) (g := f) (m := n) (n := m) (fun _ => 0)
    fun k v hv => by
      have hk := helim k
      rw [hv] at hk
      simpa using hk.ge
  simp only [Finset.sum_const_zero, add_zero] at hle hge
  exact le_antisymm hle hge

/-! ## Listings -/

/-- `l` enumerates `m`: every binding once, in some order. -/
def Lists (m : Map K V) (l : List (K × V)) : Prop :=
  (l.map Prod.fst).Nodup ∧ ∀ k v, (k, v) ∈ l ↔ m.lookup k = some v

/-- A listing is checked by looking its bindings up and counting the keys off. -/
theorem lists_iff {m : Map K V} {l : List (K × V)} : Lists m l ↔
    (l.map Prod.fst).Nodup ∧ (∀ p ∈ l, m.lookup p.1 = some p.2) ∧ ∀ k ∈ m.keys, k ∈ l.map Prod.fst := by
  constructor
  · rintro ⟨hnodup, hmem⟩
    refine ⟨hnodup, fun p hp => (hmem p.1 p.2).mp hp, fun k hk => ?_⟩
    obtain ⟨v, hv⟩ := Finmap.mem_iff.mp (Finmap.mem_keys.mp hk)
    exact List.mem_map.mpr ⟨(k, v), (hmem k v).mpr hv, rfl⟩
  · rintro ⟨hnodup, hsound, hkeys⟩
    refine ⟨hnodup, fun k v => ⟨hsound (k, v), fun hv => ?_⟩⟩
    obtain ⟨⟨k', v'⟩, hp, rfl⟩ :=
      List.mem_map.mp (hkeys k (Finmap.mem_keys.mpr (Finmap.mem_of_lookup_eq_some hv)))
    have hv' := hsound _ hp
    rw [hv] at hv'
    cases hv'
    exact hp

instance [DecidableEq V] (m : Map K V) (l : List (K × V)) : Decidable (Lists m l) :=
  decidable_of_iff' _ lists_iff

/-- Insert the bindings of `l` one after the other. -/
def insertAll (m : Map K V) (l : List (K × V)) : Map K V := l.foldl (fun m p => m.insert p.1 p.2) m

theorem lookup_insertAll {l : List (K × V)} (h : (l.map Prod.fst).Nodup) (m : Map K V) (k : K)
    (v : V) : (insertAll m l).lookup k = some v ↔
      (k, v) ∈ l ∨ k ∉ l.map Prod.fst ∧ m.lookup k = some v := by
  induction l generalizing m with
  | nil => simp [insertAll]
  | cons p l ih =>
    obtain ⟨k₀, v₀⟩ := p
    rw [List.map_cons, List.nodup_cons] at h
    have hrest := ih h.2 (m.insert k₀ v₀)
    rw [insertAll, List.foldl_cons, ← insertAll, hrest, lookup_insert_eq]
    simp only [List.mem_cons, Prod.mk.injEq, List.map_cons, not_or]
    by_cases hk : k = k₀
    · subst hk
      have hnew : ∀ w, (k, w) ∉ l := fun w hw => h.1 (List.mem_map.mpr ⟨_, hw, rfl⟩)
      simp [h.1, hnew, eq_comm]
    · simp [hk]

theorem total_insertAll (f : V → Nat) {l : List (K × V)} (h : (l.map Prod.fst).Nodup)
    {m : Map K V} (hnew : ∀ k ∈ l.map Prod.fst, m.lookup k = none) :
    total f (insertAll m l) = total f m + (l.map fun p => f p.2).sum := by
  induction l generalizing m with
  | nil => simp [insertAll]
  | cons p l ih =>
    obtain ⟨k₀, v₀⟩ := p
    rw [List.map_cons, List.nodup_cons] at h
    have hnew' : ∀ k ∈ l.map Prod.fst, (m.insert k₀ v₀).lookup k = none := by
      intro k hk
      have hne : k ≠ k₀ := fun he => h.1 (he ▸ hk)
      rw [Finmap.lookup_insert_of_ne m hne]
      exact hnew k (List.mem_cons_of_mem _ hk)
    rw [insertAll, List.foldl_cons, ← insertAll, ih h.2 hnew',
      total_insert_new (hnew k₀ (by simp)), List.map_cons, List.sum_cons, add_assoc]

end Map

end NessieStore.Lib
