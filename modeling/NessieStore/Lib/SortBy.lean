import Mathlib.Data.Finset.Card
import Mathlib.Data.List.Sort
import Mathlib.Order.Lattice

/-!
# A finite set in the order of a key

`sortBy key s` lists a finite set in ascending order of a key that tells its elements apart. The list
is computed, by insertion, and does not depend on how the set was enumerated.
-/

set_option autoImplicit false

namespace NessieStore.Lib

variable {α β : Type*} [LinearOrder β] (key : α → β)

/-- The order of the keys. -/
def KeyLe (a b : α) : Prop := key a ≤ key b

instance : DecidableRel (KeyLe key) := fun a b => inferInstanceAs (Decidable (key a ≤ key b))

instance : Std.Total (KeyLe key) := ⟨fun _ _ => le_total _ _⟩

instance : IsTrans α (KeyLe key) := ⟨fun _ _ _ => le_trans⟩

/-- Counting more, and one element more. -/
theorem countP_lt_countP {α : Type*} {p q : α → Bool} {l : List α} (h : ∀ x ∈ l, p x → q x) {a : α}
    (ha : a ∈ l) (hq : q a) (hp : ¬ p a) : l.countP p < l.countP q := by
  obtain ⟨front, rest, rfl⟩ := List.append_of_mem ha
  have hfront : front.countP p ≤ front.countP q :=
    List.countP_mono_left fun x hx => h x (by simp [hx])
  have hrest : rest.countP p ≤ rest.countP q :=
    List.countP_mono_left fun x hx => h x (by simp [hx])
  rw [List.countP_append, List.countP_append, List.countP_cons_of_neg hp, List.countP_cons_of_pos hq]
  omega

variable {key}

/-- A list with ascending keys is determined by its elements. -/
theorem eq_of_ascending {l l' : List α} (h : l.Pairwise fun x y => key x < key y)
    (h' : l'.Pairwise fun x y => key x < key y) (hperm : l.Perm l') : l = l' :=
  hperm.eq_of_pairwise (fun _ _ _ _ hlt hlt' => absurd hlt' (not_lt.mpr hlt.le)) h h'

theorem insertionSort_ascending {l : List α} (h : (l.map key).Nodup) :
    (l.insertionSort (KeyLe key)).Pairwise fun x y => key x < key y := by
  have hnodup : ((l.insertionSort (KeyLe key)).map key).Nodup :=
    (((List.perm_insertionSort (KeyLe key) l).map key).nodup_iff).mpr h
  refine ((List.pairwise_insertionSort (KeyLe key) l).and (List.pairwise_map.mp hnodup)).imp ?_
  rintro a b ⟨hle, hne⟩
  exact lt_of_le_of_ne hle hne

/-- A new key is inserted in its place. -/
theorem orderedInsert_ascending {l : List α} {a : α} (h : l.Pairwise fun x y => key x < key y)
    (hnew : ∀ b ∈ l, key b ≠ key a) :
    (l.orderedInsert (KeyLe key) a).Pairwise fun x y => key x < key y := by
  induction l with
  | nil => exact List.pairwise_singleton _ a
  | cons b l ih =>
    obtain ⟨hb, hl⟩ := List.pairwise_cons.mp h
    obtain ⟨hne, hnew⟩ := List.forall_mem_cons.mp hnew
    rw [List.orderedInsert_cons]
    split
    · next hle =>
      have hlt : key a < key b := lt_of_le_of_ne hle (Ne.symm hne)
      refine List.pairwise_cons.mpr ⟨List.forall_mem_cons.mpr ⟨hlt, ?_⟩, h⟩
      intro c hc
      exact hlt.trans (hb c hc)
    · next hle =>
      have hlt : key b < key a := not_le.mp hle
      refine List.pairwise_cons.mpr ⟨?_, ih hl hnew⟩
      intro c hc
      rcases (List.mem_orderedInsert (KeyLe key)).mp hc with rfl | hc
      · exact hlt
      · exact hb c hc

variable (hkey : Function.Injective key)

include hkey

theorem KeyLe.antisymm {a b : α} (h : KeyLe key a b) (h' : KeyLe key b a) : a = b :=
  hkey (le_antisymm h h')

/-- Sorting forgets the order in which the elements were listed. -/
theorem insertionSort_keyLe_eq {l l' : List α} (h : l.Perm l') :
    l.insertionSort (KeyLe key) = l'.insertionSort (KeyLe key) := by
  have hsorted := List.pairwise_insertionSort (KeyLe key)
  have hperm := List.perm_insertionSort (KeyLe key)
  exact ((hperm l).trans (h.trans (hperm l').symm)).eq_of_pairwise
    (fun _ _ _ _ => KeyLe.antisymm hkey) (hsorted l) (hsorted l')

/-- A set in the order of the keys. -/
def sortBy (s : Finset α) : List α :=
  Quot.liftOn s.val (List.insertionSort (KeyLe key)) fun _ _ => insertionSort_keyLe_eq hkey

theorem coe_sortBy (s : Finset α) : (sortBy hkey s : Multiset α) = s.val := by
  obtain ⟨m, hm⟩ := s
  induction m using Quot.inductionOn with
  | h l => exact Quot.sound (List.perm_insertionSort (KeyLe key) l)

theorem mem_sortBy {s : Finset α} {a : α} : a ∈ sortBy hkey s ↔ a ∈ s := by
  rw [← Multiset.mem_coe, coe_sortBy, Finset.mem_val]

theorem length_sortBy (s : Finset α) : (sortBy hkey s).length = s.card := by
  rw [← Multiset.coe_card, coe_sortBy, Finset.card_val]

theorem nodup_sortBy (s : Finset α) : (sortBy hkey s).Nodup := by
  rw [← Multiset.coe_nodup, coe_sortBy]
  exact s.nodup

theorem sortBy_ascending (s : Finset α) : (sortBy hkey s).Pairwise fun a b => key a < key b := by
  have hle : (sortBy hkey s).Pairwise (KeyLe key) := by
    obtain ⟨m, hm⟩ := s
    induction m using Quot.inductionOn with
    | h l => exact List.pairwise_insertionSort (KeyLe key) l
  refine (hle.and (nodup_sortBy hkey s)).imp ?_
  rintro a b ⟨h, hne⟩
  exact lt_of_le_of_ne h fun heq => hne (hkey heq)

end NessieStore.Lib
