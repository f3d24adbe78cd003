import Mathlib.Data.Set.Card
import NessieStore.Action.Attestation

/-!
# What a set of attestations resolves to

`AttestationSet` of `nessie-backend-core` (`attestation_set.rs`) as a replicated value: nodes insert
attestations one by one and merge each other's sets, in whatever order the network brings them. A
`Delivery` is one such history, and all that is left of it is which attestations it brought
(`mem_deliver`). `Backed` says what a threshold asks for, that so many signers stand behind a result,
and a resolution is determined by the results that are backed. Backing only grows with the set, so a
confirmed result stays one or becomes one side of a conflict.

A threshold is a `NonZeroUsize`: with zero, results nobody attested would be backed.
-/

set_option autoImplicit false

namespace NessieStore

namespace AttestationSet

/-- `insert`: whether the attestation is new, and the set with it. -/
def insert (set : AttestationSet) (att : Attestation) : Bool × AttestationSet :=
  (att ∉ set, Insert.insert att set)

/-- `merge`. -/
def merge (set other : AttestationSet) : AttestationSet := set ∪ other

end AttestationSet

/-- How a set came about: from `new`, by inserting, and by merging sets that came about the same
way. -/
inductive Delivery
  | new
  | insert (before : Delivery) (att : Attestation)
  | merge (before other : Delivery)

namespace Delivery

/-- The set that a history leaves. -/
def deliver : Delivery → AttestationSet
  | new => ∅
  | insert before att => (before.deliver.insert att).2
  | merge before other => before.deliver.merge other.deliver

/-- The attestations of all its insertions. -/
def delivered : Delivery → Multiset Attestation
  | new => 0
  | insert before att => att ::ₘ before.delivered
  | merge before other => before.delivered + other.delivered

/-- By induction on the history: a set holds what was inserted into it and into what it merged. -/
theorem mem_deliver {d : Delivery} {a : Attestation} : a ∈ d.deliver ↔ a ∈ d.delivered := by
  induction d with
  | new => simp [deliver, delivered]
  | insert before att ih =>
    rw [deliver, AttestationSet.insert, Finset.mem_insert, delivered, Multiset.mem_cons, ih]
  | merge before other ih ih' =>
    rw [deliver, AttestationSet.merge, Finset.mem_union, delivered, Multiset.mem_add, ih, ih']

end Delivery

/-- At least `k` signers attest the result. -/
def Backed (set : AttestationSet) (k : Nat) (result : Digest) : Prop :=
  k ≤ {signer : SignerId | (⟨signer, result⟩ : Attestation) ∈ set}.ncard

namespace AttestationSet

variable {set : AttestationSet} {k : Nat} {result : Digest}

theorem mem_signersFor {signer : SignerId} :
    signer ∈ signersFor set result ↔ (⟨signer, result⟩ : Attestation) ∈ set := by
  rw [signersFor, Finset.mem_image]
  constructor
  · rintro ⟨a, ha, rfl⟩
    obtain ⟨hmem, rfl⟩ := Finset.mem_filter.mp ha
    exact hmem
  · intro hmem
    exact ⟨_, Finset.mem_filter.mpr ⟨hmem, rfl⟩, rfl⟩

theorem isConfirmed_iff : isConfirmed set result k = true ↔ Backed set k result := by
  have hsigners : {signer : SignerId | (⟨signer, result⟩ : Attestation) ∈ set} =
      (signersFor set result : Set SignerId) :=
    Set.ext fun _ => mem_signersFor.symm
  rw [isConfirmed, decide_eq_true_iff, Backed, hsigners, Set.ncard_coe_finset]

/-- With a threshold above zero, a backed result is one that somebody attested. -/
theorem mem_confirmed (hk : 0 < k) : result ∈ confirmed set k ↔ Backed set k result := by
  rw [confirmed, Finset.mem_filter, isConfirmed_iff, and_iff_right_iff_imp]
  intro hbacked
  obtain ⟨signer, hsigner⟩ := Set.nonempty_of_ncard_ne_zero (Nat.ne_of_gt (hk.trans_le hbacked))
  exact Finset.mem_image.mpr ⟨_, hsigner, rfl⟩

end AttestationSet

/-- More attestations back no fewer results. -/
theorem Backed.mono {set set' : AttestationSet} {k : Nat} {result : Digest}
    (h : Backed set k result) (hsub : set ⊆ set') : Backed set' k result := by
  refine Nat.le_trans h (Set.ncard_le_ncard (fun signer hsigner => hsub hsigner) ?_)
  refine (Finset.finite_toSet (AttestationSet.signersFor set' result)).subset fun signer hsigner => ?_
  exact AttestationSet.mem_signersFor.mpr hsigner

/-- Attestations brought in any order, once or more often, and through any merges resolve the same;
the resolution is the only backed result, or all of them when there are several; and a confirmed
result stays one on every larger set, alone or in a conflict. -/
theorem resolution_follows_delivery :
    (∀ (atts : Multiset Attestation) (d d' : Delivery), (∀ a, a ∈ d.delivered ↔ a ∈ atts) →
      (∀ a, a ∈ d'.delivered ↔ a ∈ atts) → ∀ k, 0 < k → d.deliver.resolve k = d'.deliver.resolve k) ∧
    (∀ (set : AttestationSet) (k : Nat), 0 < k →
      (∀ r, set.resolve k = .confirmed r ↔ Backed set k r ∧ ∀ r', Backed set k r' → r' = r) ∧
      ∀ results, set.resolve k = .conflicting results ↔
        (∀ r, r ∈ results ↔ Backed set k r) ∧ 2 ≤ results.card) ∧
    ∀ (set set' : AttestationSet) (k : Nat) (r : Digest), 0 < k → set ⊆ set' →
      set.resolve k = .confirmed r →
      set'.resolve k = .confirmed r ∨ ∃ results, r ∈ results ∧ set'.resolve k = .conflicting results := by
  refine ⟨?_, ?_, ?_⟩
  · intro atts d d' hd hd' k hk
    have hset : d.deliver = d'.deliver := by
      ext a
      rw [Delivery.mem_deliver, Delivery.mem_deliver, hd, hd']
    rw [hset]
  · intro set k hk
    refine ⟨fun r => ?_, fun results => ?_⟩
    · rw [AttestationSet.resolve_eq_confirmed_iff, Finset.eq_singleton_iff_unique_mem]
      simp only [AttestationSet.mem_confirmed hk]
    · rw [AttestationSet.resolve_eq_conflicting_iff, Finset.ext_iff]
      simp only [AttestationSet.mem_confirmed hk, iff_comm]
  · intro set set' k r hk hsub hconfirmed
    rw [AttestationSet.resolve_eq_confirmed_iff] at hconfirmed
    have hbacked : Backed set k r :=
      (AttestationSet.mem_confirmed hk).mp (hconfirmed ▸ Finset.mem_singleton_self r)
    have hmem : r ∈ AttestationSet.confirmed set' k :=
      (AttestationSet.mem_confirmed hk).mpr (hbacked.mono hsub)
    -- one backed result on the larger set, or several
    by_cases hone : AttestationSet.confirmed set' k = {r}
    · exact .inl (AttestationSet.resolve_eq_confirmed_iff.mpr hone)
    · refine .inr ⟨_, hmem, AttestationSet.resolve_eq_conflicting_iff.mpr ⟨rfl, ?_⟩⟩
      have hpos := Finset.card_pos.mpr ⟨r, hmem⟩
      have hne : (AttestationSet.confirmed set' k).card ≠ 1 := by
        intro hcard
        obtain ⟨r', hr'⟩ := Finset.card_eq_one.mp hcard
        rw [hr', Finset.mem_singleton] at hmem
        exact hone (hmem ▸ hr')
      omega

end NessieStore
