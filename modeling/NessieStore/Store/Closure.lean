import Mathlib.Order.Bounds.Basic
import NessieStore.Core.ActionResult
import NessieStore.Core.Tree
import NessieStore.Lib.Worklist

/-!
# What a set of roots reaches

`reachable_closure` (`nessie-cas-store`, `reach.rs`), the mark of mark-and-sweep, and the resolver
that reads a blob's out-edges (`resolver.rs`). The walk is `Lib.walk` over the edges of what the
backend serves. A backend is its answers: `get` stands for the reader and for reading it to the end.

The closure is the least set with the seed that is closed under the edges of held blobs, and the
canonical resolver reads exactly the references of the two structured types
(`reachable_closure_least`). Nothing is said of a backend that fails in another way than by not having
a blob: the walk hands its error on.
-/

set_option autoImplicit false

namespace NessieStore

open Lib

/-! ## The types with references -/

/-- The digests of every output, then of the captured streams. -/
def ActionResult.references (v : ActionResult) : List Digest :=
  v.outputs.map (fun e => e.2.digest) ++ v.stdoutDigest.toList ++ v.stderrDigest.toList

/-- The children. -/
def Tree.references (t : Tree) : List Digest := t.entries.map fun e => e.2.digest

/-- A `ReferenceResolver`: the out-edges of a blob. -/
abbrev ReferenceResolver := Digest → Bytes → List Digest

/-- `CanonicalResolver::references_of`. -/
def canonicalResolver : ReferenceResolver := fun _ bytes =>
  match ActionResult.fromCanonicalBytes bytes with
  | .ok result => result.references
  | .error _ =>
    match Tree.fromCanonicalBytes bytes with
    | .ok tree => tree.references
    | .error _ => []

/-! ## The walk -/

section Walk

variable (get : Digest → Except BackendError Bytes) (referencesOf : ReferenceResolver)

/-- The loop of `reachable_closure`, the top of the stack first; `none` when the fuel runs out. -/
def closureFrom : Nat → Finset Digest → List Digest → Option (Except BackendError (Finset Digest))
  | _, visited, [] => some (.ok visited)
  | 0, _, _ :: _ => none
  | fuel + 1, visited, digest :: stack =>
    if digest ∈ visited then closureFrom fuel visited stack
    else
      match get digest with
      | .ok bytes =>
        let children := (referencesOf digest bytes).filter (· ∉ insert digest visited)
        closureFrom fuel (insert digest visited) (children.reverse ++ stack)
      -- reachable but not held here
      | .error (.blobNotFound _) => closureFrom fuel (insert digest visited) stack
      | .error e => some (.error e)

/-- `reachable_closure`, of the seed as its set lists it. -/
def reachableClosure (fuel : Nat) (seed : List Digest) : Option (Except BackendError (Finset Digest)) :=
  closureFrom get referencesOf fuel ∅ seed.reverse

/-- The edges of what is held. -/
def heldEdges (digest : Digest) : List Digest :=
  match get digest with
  | .ok bytes => referencesOf digest bytes
  | .error _ => []

variable {get referencesOf}

theorem mem_heldEdges {digest child : Digest} : child ∈ heldEdges get referencesOf digest ↔
    ∃ bytes, get digest = .ok bytes ∧ child ∈ referencesOf digest bytes := by
  unfold heldEdges
  cases get digest with
  | error e => simp
  | ok bytes => simp

/-- Over a backend that only ever lacks a blob, the loop is the walk along the edges of held blobs. -/
theorem closureFrom_eq_walk
    (hget : ∀ digest e, get digest = .error e → ∃ missing, e = .blobNotFound missing) (fuel : Nat)
    (visited : Finset Digest) (stack : List Digest) :
    closureFrom get referencesOf fuel visited stack =
      (walk (heldEdges get referencesOf) fuel visited stack).map .ok := by
  induction fuel generalizing visited stack with
  | zero => cases stack <;> rfl
  | succ fuel ih =>
    cases stack with
    | nil => rfl
    | cons digest stack =>
      rw [closureFrom, walk]
      by_cases hvisited : digest ∈ visited
      · rw [if_pos hvisited, if_pos hvisited]
        exact ih visited stack
      · rw [if_neg hvisited, if_neg hvisited]
        cases hd : get digest with
        | ok bytes =>
          have hedges : heldEdges get referencesOf digest = referencesOf digest bytes := by
            rw [heldEdges, hd]
          rw [push, hedges]
          exact ih _ _
        | error e =>
          obtain ⟨missing, rfl⟩ := hget digest e hd
          have hedges : heldEdges get referencesOf digest = [] := by rw [heldEdges, hd]
          rw [push, hedges]
          exact ih _ _

/-- The sets that are closed under the edges of what is held. -/
theorem closedFrom_heldEdges (seed : List Digest) :
    closedFrom (heldEdges get referencesOf) seed =
      {S : Set Digest | (∀ d ∈ seed, d ∈ S) ∧ ∀ d ∈ S, ∀ bytes, get d = .ok bytes →
        ∀ child ∈ referencesOf d bytes, child ∈ S} := by
  ext S
  refine and_congr_right fun _ => ⟨?_, ?_⟩
  · intro h d hd bytes hbytes child hchild
    exact h d hd child (mem_heldEdges.mpr ⟨bytes, hbytes, hchild⟩)
  · intro h d hd child hchild
    obtain ⟨bytes, hbytes, hmem⟩ := mem_heldEdges.mp hchild
    exact h d hd bytes hbytes child hmem

variable (referencesOf) in
/-- A finite backend makes the walk a finite one. -/
theorem walk_held_ends {held : Finset Digest}
    (hheld : ∀ digest bytes, get digest = .ok bytes → digest ∈ held) (seed : List Digest) :
    ∃ enough, ∀ fuel, enough ≤ fuel →
      ∃ out, walk (heldEdges get referencesOf) fuel ∅ seed.reverse = some out := by
  -- all that the walk can meet: the seed, and what is read from held blobs
  let U := seed.toFinset ∪ held.biUnion fun d => (heldEdges get referencesOf d).toFinset
  have hnext : ∀ d ∈ U, ∀ child ∈ heldEdges get referencesOf d, child ∈ U := by
    intro d _ child hchild
    obtain ⟨bytes, hbytes, -⟩ := mem_heldEdges.mp hchild
    refine Finset.mem_union_right _ (Finset.mem_biUnion.mpr ⟨d, hheld d bytes hbytes, ?_⟩)
    exact List.mem_toFinset.mpr hchild
  have hstack : ∀ d ∈ seed.reverse, d ∈ U := by
    intro d hd
    exact Finset.mem_union_left _ (List.mem_toFinset.mpr (List.mem_reverse.mp hd))
  exact ⟨_, fun fuel hfuel => walk_ends hnext hstack hfuel⟩

end Walk

/-! ## Exact edges -/

/-- No bytes stand for both types: the domains differ. -/
theorem not_both_canonical (bytes : Bytes) (v : ActionResult) (t : Tree)
    (hv : ActionResult.fromCanonicalBytes bytes = .ok v) (ht : Tree.fromCanonicalBytes bytes = .ok t) :
    False := by
  have hbytes := (ActionResult.fromCanonicalBytes_exact hv).2.symm.trans
    (Tree.fromCanonicalBytes_exact ht).2
  -- the eighth byte is that of `A` on one side and of `T` on the other
  have hbyte := congrArg (fun b : Bytes => b[7]?) hbytes
  simp only [ActionResult.toCanonicalBytes, Tree.toCanonicalBytes, List.append_assoc] at hbyte
  rw [List.getElem?_append_left (by decide +kernel), List.getElem?_append_left (by decide +kernel)]
    at hbyte
  revert hbyte
  decide +kernel

theorem canonicalResolver_actionResult {v : ActionResult} (h : v.Fits) (digest : Digest) :
    canonicalResolver digest v.toCanonicalBytes = v.references := by
  unfold canonicalResolver
  rw [ActionResult.fromCanonicalBytes_toCanonicalBytes h]

theorem canonicalResolver_tree {t : Tree} (h : t.Fits) (digest : Digest) :
    canonicalResolver digest t.toCanonicalBytes = t.references := by
  have hread := Tree.fromCanonicalBytes_toCanonicalBytes h
  unfold canonicalResolver
  cases hv : ActionResult.fromCanonicalBytes t.toCanonicalBytes with
  | ok v => exact (not_both_canonical _ v t hv hread).elim
  | error e =>
    dsimp only
    rw [hread]

/-! ## The least fixpoint -/

/-- `reachable_closure` ends, with the least set that has the seed and, with each held member, all
that the resolver reads from it. The canonical resolver reads the references of action results and
trees, and no bytes are both. -/
theorem reachable_closure_least (get : Digest → Except BackendError Bytes)
    (referencesOf : ReferenceResolver) (held : Finset Digest)
    (hheld : ∀ digest bytes, get digest = .ok bytes → digest ∈ held)
    (hget : ∀ digest e, get digest = .error e → ∃ missing, e = .blobNotFound missing)
    (seed : List Digest) :
    (∃ closure : Finset Digest,
      (∃ enough, ∀ fuel, enough ≤ fuel →
        reachableClosure get referencesOf fuel seed = some (.ok closure)) ∧
      IsLeast {S : Set Digest | (∀ d ∈ seed, d ∈ S) ∧ ∀ d ∈ S, ∀ bytes, get d = .ok bytes →
        ∀ child ∈ referencesOf d bytes, child ∈ S} closure) ∧
    (∀ (digest : Digest) (v : ActionResult), v.Fits →
      canonicalResolver digest v.toCanonicalBytes = v.references) ∧
    (∀ (digest : Digest) (t : Tree), t.Fits →
      canonicalResolver digest t.toCanonicalBytes = t.references) ∧
    ∀ bytes v t, ¬ (ActionResult.fromCanonicalBytes bytes = .ok v ∧
      Tree.fromCanonicalBytes bytes = .ok t) := by
  refine ⟨?_, fun digest v hv => canonicalResolver_actionResult hv digest,
    fun digest t ht => canonicalResolver_tree ht digest, fun bytes v t h =>
      not_both_canonical bytes v t h.1 h.2⟩
  obtain ⟨enough, hends⟩ := walk_held_ends referencesOf hheld seed
  obtain ⟨closure, hclosure⟩ := hends enough le_rfl
  have hleast : ∀ fuel out, walk (heldEdges get referencesOf) fuel ∅ seed.reverse = some out →
      IsLeast (closedFrom (heldEdges get referencesOf) seed) (out : Set Digest) :=
    fun fuel out hout => walk_least (.start fun d => List.mem_reverse) hout
  refine ⟨closure, ⟨enough, ?_⟩, closedFrom_heldEdges seed ▸ hleast enough closure hclosure⟩
  intro fuel hfuel
  obtain ⟨out, hout⟩ := hends fuel hfuel
  -- least sets are unique, so more fuel changes nothing
  have hsame : out = closure :=
    Finset.coe_injective ((hleast fuel out hout).unique (hleast enough closure hclosure))
  rw [reachableClosure, closureFrom_eq_walk hget, hout, hsame]
  rfl

/-- A digest for every byte. -/
def sampleDigest (n : UInt8) : Digest := .compute .short [n]

/-- One blob, with an edge to itself and one to a blob that is not held. -/
def cyclicGet (d : Digest) : Except BackendError Bytes :=
  if d = sampleDigest 1 then .ok [1, 2] else .error (.blobNotFound d)

theorem reachable_closure_least_cycle :
    ∃ closure : Finset Digest, (∃ enough, ∀ fuel, enough ≤ fuel →
      reachableClosure cyclicGet (fun _ bytes => bytes.map sampleDigest) fuel [sampleDigest 1] =
        some (.ok closure)) ∧ sampleDigest 2 ∈ closure := by
  obtain ⟨⟨closure, hends, hleast⟩, -⟩ :=
    reachable_closure_least cyclicGet (fun _ bytes => bytes.map sampleDigest) {sampleDigest 1}
      (by
        intro digest bytes h
        unfold cyclicGet at h
        split at h
        · next hd => exact Finset.mem_singleton.mpr hd
        · cases h)
      (by
        intro digest e h
        unfold cyclicGet at h
        split at h
        · cases h
        · cases h
          exact ⟨digest, rfl⟩)
      [sampleDigest 1]
  refine ⟨closure, hends, ?_⟩
  have hseed : sampleDigest 1 ∈ (closure : Set Digest) := hleast.1.1 _ List.mem_cons_self
  exact hleast.1.2 _ hseed [1, 2] (if_pos rfl) (sampleDigest 2) (by decide +kernel)

end NessieStore
