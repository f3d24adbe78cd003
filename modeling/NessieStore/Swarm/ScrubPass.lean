import NessieStore.Core.ByText
import NessieStore.Lib.Cursor
import NessieStore.Swarm.Push

/-!
# A scrub pass

`CasNode::scrub_pass` (`nessie-store`, `cas_node/scrub.rs`) when nothing else runs on the node: first
the quarantined digests without a live copy are fetched again, then the live blobs are verified, both
in the order of the digests' texts, both behind a cursor that is kept between passes, and both on one
budget of bytes. The peers are whatever answers they give during the pass (`PeerAnswers`).

A directory is listed in no particular order, and the pass sorts what it lists, so the model reads
the sorted lists off the store: `sorted_iterLocal` and `sorted_pendingFrom` say that this is what the
source computes from any listing. Disk errors are not modelled here (`Store.Scrub` has them), and a
push of `repair` is its result: it reads the local copy and writes nothing on this node.
-/

set_option autoImplicit false

namespace NessieStore

open Lib

/-- What one scrub-and-repair pass found and did. -/
structure ScrubReport where
  scanned : Nat := 0
  corrupt : Nat := 0
  restored : Nat := 0
  unrestored : Nat := 0
  quarantinedTotal : Nat := 0
  pendingRestore : Nat := 0
  pendingNoCapacity : Nat := 0
  deferred : Nat := 0
  reclaimed : Nat := 0
  underReplicated : Nat := 0
  replicated : Nat := 0
deriving DecidableEq

/-- Whether a pending restore is worth fetching. -/
inductive Room
  | noPeer
  | noCapacity
  | fits (n : Nat)
deriving DecidableEq

/-- What the peers answer during one pass, and how the writes go that it makes. -/
structure PeerAnswers where
  /-- The length that the first peer to report one reports on `HEAD`. -/
  size : Digest → Option Nat
  /-- The bodies that the peers send on `GET`, in the order of the peer list. -/
  bodies : Digest → List Bytes
  /-- How putting a fetched blob back goes; events that do not bring it to its end are a failure. -/
  write : Digest → List WriteEvent
  /-- What `push_counting` returns. -/
  pushed : Digest → Except BackendError Pushed

/-! ## The sorted lists -/

/-- `local_blobs`, sorted. -/
def LocalCas.inventory (c : LocalCas) : List LocalBlob :=
  (byText c.blobs.keys).map fun d => ⟨d, (c.size d).getD 0⟩

/-- The loop of `pending_digests` over what `quarantined` listed: the digests that have no live copy,
each once. -/
def LocalCas.pendingFrom (c : LocalCas) : Finset Digest → List QuarantinedBlob → List Digest
  | _, [] => []
  | seen, q :: qs =>
    if q.digest ∉ seen ∧ c.has q.digest = false then
      q.digest :: c.pendingFrom (insert q.digest seen) qs
    else c.pendingFrom (insert q.digest seen) qs

/-- `pending_digests`, sorted. -/
def LocalCas.pendingDigests (c : LocalCas) : List Digest :=
  byText ((c.quarantined.keys.image QuarantineId.digest).filter fun d => c.has d = false)

/-! ## The pass -/

namespace CasStore

variable (H : HashFn) (a : PeerAnswers)

/-- `SwarmCas::size`: local, else what a peer reports. -/
def size (s : CasStore) (d : Digest) : Option Nat :=
  match s.inner.size d with
  | some n => some n
  | none => a.size d

/-- `get` on a `write_only` node: local, else the first body of a peer that hashes to the digest. A
read rewarms the blob. -/
def get (s : CasStore) (d : Digest) : Except BackendError Bytes × CasStore :=
  let warmed : CasStore := { s with state := { s.state with access := s.state.access.touch d } }
  match s.inner.get H d with
  | .ok bytes => (.ok bytes, warmed)
  | .error (.blobNotFound _) =>
    match (a.bodies d).find? fun bytes => d.verify H bytes with
    | some bytes => (.ok bytes, warmed)
    | none => (.error (.blobNotFound d), s)
  | .error e => (.error e, s)

def roomFor (s : CasStore) (d : Digest) : Room :=
  match s.size a d with
  | some n => if s.admits n then .fits n else .noCapacity
  | none => .noPeer

def restore (s : CasStore) (d : Digest) : Except BackendError Unit × CasStore :=
  match s.get H a d with
  | (.error e, t) => (.error e, t)
  | (.ok bytes, t) =>
    (t.putKeyedLocal H d bytes (a.write d)).getD (.error (.internal "write did not end"), t)

def restoreIfRoom (s : CasStore) (d : Digest) : Except BackendError Unit × CasStore :=
  match s.roomFor a d with
  | .fits _ => s.restore H a d
  | .noPeer => (.error (.blobNotFound d), s)
  | .noCapacity =>
    (.error (.internal (String.ofList ("no capacity to restore ".toList ++ d.toText))), s)

/-- `lru`: drop the blob if it is still corrupt. -/
def reclaimIfStillCorrupt (s : CasStore) (d : Digest) (r : ScrubReport) : ScrubReport × CasStore :=
  match s.inner.verify H d with
  | .ok false =>
    ({ r with reclaimed := r.reclaimed + 1 },
      { s with inner := (s.inner.reclaim d).2 }.creditReclaimed d)
  | _ => (r, s)

/-- Remove the corrupt copy; `true` if the blob is healthy and held again. -/
def takeOutCorrupt (s : CasStore) (d : Digest) (r : ScrubReport) : Bool × ScrubReport × CasStore :=
  match s.mode with
  | .lru .. => (false, s.reclaimIfStillCorrupt H d r)
  | .writeOnly _ =>
    match s.quarantine d none with
    | (.ok (.moved _), t) =>
      match t.restoreIfRoom H a d with
      | (.ok _, u) => (true, { r with restored := r.restored + 1 }, u)
      | (.error _, u) => (false, { r with unrestored := r.unrestored + 1 }, u)
    | (.ok .absent, t) => (false, r, t)
    | (.ok .deferred, t) => (false, { r with deferred := r.deferred + 1 }, t)
    | (.error _, t) => (false, { r with unrestored := r.unrestored + 1 }, t)

/-- Push the blob until `R - 1` peers hold it, on a node with a mirror. -/
def repair (mirror : Option Nat) (d : Digest) (r : ScrubReport) : ScrubReport :=
  match mirror with
  | none => r
  | some peerCopies =>
    match a.pushed d with
    | .ok p =>
      if peerCopies ≤ p.held then { r with replicated := r.replicated + if 0 < p.sent then 1 else 0 }
      else { r with underReplicated := r.underReplicated + 1 }
    | .error _ => { r with underReplicated := r.underReplicated + 1 }

def scrubOne (mirror : Option Nat) (d : Digest) (x : ScrubReport × CasStore) :
    ScrubReport × CasStore :=
  let (r, s) := x
  match s.inner.verify H d with
  | .ok true => (repair a mirror d { r with scanned := r.scanned + 1 }, s)
  | .ok false =>
    match s.takeOutCorrupt H a d { r with scanned := r.scanned + 1, corrupt := r.corrupt + 1 } with
    | (true, r, t) => (repair a mirror d r, t)
    | (false, r, t) => (r, t)
  | .error _ => (r, s)

/-- The loop of `retry_pending`: the digests it tries, what is spent then, the report and the
store. -/
def retryFrom (budget : Nat) : List Digest → Nat → ScrubReport × CasStore →
    List Digest × Nat × ScrubReport × CasStore
  | [], spent, x => ([], spent, x)
  | d :: ds, spent, (r, s) =>
    if budget ≤ spent then ([], spent, (r, s))
    else
      let go (spent : Nat) (x : ScrubReport × CasStore) :=
        let rest := retryFrom budget ds spent x
        (d :: rest.1, rest.2)
      match s.roomFor a d with
      | .noPeer => go spent (r, s)
      | .noCapacity => go spent ({ r with pendingNoCapacity := r.pendingNoCapacity + 1 }, s)
      | .fits n =>
        match s.restore H a d with
        | (.ok _, t) => go (saturatingAdd spent n) ({ r with restored := r.restored + 1 }, t)
        | (.error _, t) => go (saturatingAdd spent n) (r, t)

/-- The loop of `scrub_pass` from where the scan resumes: each blob it comes to with the verdict on
it, the report and the store. `started` says that one has been visited. -/
def scanFrom (mirror : Option Nat) (budget : Nat) : List LocalBlob → Nat → (started : Bool) →
    ScrubReport × CasStore →
    List (LocalBlob × Except BackendError Bool) × ScrubReport × CasStore
  | [], _, _, x => ([], x)
  | b :: bs, spent, started, x =>
    if budget ≤ spent ∧ (started = true ∨ 0 < spent) then ([], x)
    else
      let rest := scanFrom mirror budget bs (saturatingAdd spent b.sizeBytes) true
        (scrubOne H a mirror b.digest x)
      ((b, x.2.inner.verify H b.digest) :: rest.1, rest.2)

end CasStore

/-- The part of a `CasNode` that a scrub pass uses. -/
structure ScrubNode where
  store : CasStore
  /-- `Mirror::peer_copies`, when there is a mirror. -/
  mirror : Option Nat
  scrubBudget : Nat
  /-- `scrub_bytes_per_pass` is a `u64`. -/
  budget_le : scrubBudget ≤ u64Max
  scrubCursor : Option (List Char)
  pendingCursor : Option (List Char)

/-- What a pass returns, what it verified on the way, and the node afterwards. -/
structure Passed where
  report : ScrubReport
  visited : List (LocalBlob × Except BackendError Bool)
  node : ScrubNode

namespace ScrubNode

variable (H : HashFn) (a : PeerAnswers)

/-- Where a scan of digests resumes behind a cursor. -/
def start {α : Type} (digest : α → Digest) (l : List α) (cursor : Option (List Char)) : Nat :=
  resume (fun x => nameKey (digest x).toText) l (cursor.map nameKey)

/-- The cursor after a scan that began at `start` and visited `visited`. -/
def cursorBehind (n start : Nat) (visited : List Digest) : Option (List Char) :=
  if start + visited.length < n then visited.getLast?.map Digest.toText else none

def retryPending (n : ScrubNode) : Nat × ScrubReport × ScrubNode :=
  match n.store.mode with
  | .lru .. => (0, {}, n)
  | .writeOnly _ =>
    let pending := n.store.inner.pendingDigests
    let start := start id pending n.pendingCursor
    let (tried, spent, r, s) :=
      CasStore.retryFrom H a n.scrubBudget (pending.drop start) 0 ({}, n.store)
    (spent, r,
      { n with store := s, pendingCursor := cursorBehind pending.length start tried })

def countQuarantine (s : CasStore) (r : ScrubReport) : ScrubReport :=
  match s.mode with
  | .lru .. => r
  | .writeOnly _ =>
    { r with
      quarantinedTotal := s.inner.quarantined.keys.card
      pendingRestore := s.inner.pendingDigests.length }

def scrubPass (n : ScrubNode) : Passed :=
  if n.scrubBudget = 0 then ⟨{}, [], n⟩
  else
    let (spent, r, n) := n.retryPending H a
    let blobs := n.store.inner.inventory
    let start := start LocalBlob.digest blobs n.scrubCursor
    let (visited, r, s) :=
      CasStore.scanFrom H a n.mirror n.scrubBudget (blobs.drop start) spent false (r, n.store)
    -- nothing scanned because the retries spent the budget: the cursor stays
    let cursor := if visited ≠ [] ∨ blobs.length ≤ start then
        cursorBehind blobs.length start (visited.map fun v => v.1.digest)
      else n.scrubCursor
    ⟨countQuarantine s r, visited, { n with store := s, scrubCursor := cursor }⟩

/-- One pass after the other. -/
def passes (n : ScrubNode) : List PeerAnswers → List Passed
  | [] => []
  | a :: as => n.scrubPass H a :: (n.scrubPass H a).node.passes as

end ScrubNode

/-- The pass verified the copy of `d`. -/
def Passed.Verified (p : Passed) (d : Digest) : Prop :=
  ∃ v ∈ p.visited, v.1.digest = d ∧ v.2.isOk = true

/-! ## What the lists are -/

/-- Two ways to list the same digests, each once, sort to the same list. -/
theorem eq_byText {l : List Digest} {ds : Finset Digest} (hsorted : l.Pairwise TextLe)
    (hnodup : l.Nodup) (hmem : ∀ d, d ∈ l ↔ d ∈ ds) : l = byText ds := by
  have hperm : l.Perm (byText ds) := by
    rw [List.perm_ext_iff_of_nodup hnodup (nodup_byText ds)]
    intro d
    rw [hmem, mem_byText]
  exact hperm.eq_of_pairwise (fun _ _ _ _ => KeyLe.antisymm textKey_injective) hsorted
    ((byText_ascending ds).imp fun h => h.le)

/-- However the blobs are listed, sorted they are the inventory. -/
theorem LocalCas.sorted_iterLocal {c : LocalCas} {l : List LocalBlob} (h : c.IterLocal l) :
    l.insertionSort (fun a b => TextLe a.digest b.digest) = c.inventory := by
  obtain ⟨hnodup, hsize, hall⟩ := h
  have hperm := List.perm_insertionSort (fun a b : LocalBlob => TextLe a.digest b.digest) l
  have hdigests : (l.insertionSort fun a b => TextLe a.digest b.digest).map LocalBlob.digest =
      byText c.blobs.keys := by
    apply eq_byText
    · exact List.pairwise_map.mpr (List.pairwise_insertionSort _ l)
    · exact ((hperm.map _).nodup_iff).mpr hnodup
    · intro d
      rw [(hperm.map _).mem_iff]
      refine ⟨fun hd => ?_, hall d⟩
      obtain ⟨b, hb, rfl⟩ := List.mem_map.mp hd
      have hlen := hsize b hb
      unfold size at hlen
      obtain ⟨bytes, hbytes, -⟩ := Option.map_eq_some_iff.mp hlen
      exact Finmap.mem_keys.mpr (Finmap.mem_of_lookup_eq_some hbytes)
  rw [inventory, ← hdigests, List.map_map]
  refine (List.map_id _).symm.trans (List.map_congr_left fun b hb => ?_)
  show b = ⟨b.digest, (c.size b.digest).getD 0⟩
  rw [hsize b (hperm.mem_iff.mp hb)]
  rfl

theorem LocalCas.mem_pendingFrom {c : LocalCas} {d : Digest} (l : List QuarantinedBlob)
    (seen : Finset Digest) : d ∈ c.pendingFrom seen l ↔
      d ∉ seen ∧ c.has d = false ∧ d ∈ l.map QuarantinedBlob.digest := by
  induction l generalizing seen with
  | nil => simp [pendingFrom]
  | cons q qs ih =>
    simp only [pendingFrom, List.map_cons, List.mem_cons]
    by_cases hd : d = q.digest
    · subst hd
      split
      · next h => simp [h]
      · next h => simpa [ih] using h
    · split <;> simp [ih, hd]

theorem LocalCas.nodup_pendingFrom {c : LocalCas} (l : List QuarantinedBlob)
    (seen : Finset Digest) : (c.pendingFrom seen l).Nodup := by
  induction l generalizing seen with
  | nil => exact List.nodup_nil
  | cons q qs ih =>
    simp only [pendingFrom]
    split
    · refine List.nodup_cons.mpr ⟨fun hq => ?_, ih _⟩
      exact ((mem_pendingFrom qs _).mp hq).1 (Finset.mem_insert_self _ _)
    · exact ih _

/-- However the quarantine is listed, the pending digests sort to `pendingDigests`. -/
theorem LocalCas.sorted_pendingFrom {c : LocalCas} {l : List QuarantinedBlob}
    (h : c.IterQuarantine l) :
    (c.pendingFrom ∅ l).insertionSort TextLe = c.pendingDigests := by
  obtain ⟨-, hfile, hall⟩ := h
  have hperm := List.perm_insertionSort TextLe (c.pendingFrom ∅ l)
  apply eq_byText (List.pairwise_insertionSort _ _) (hperm.nodup_iff.mpr (nodup_pendingFrom l ∅))
  intro d
  have hlisted : d ∈ l.map QuarantinedBlob.digest ↔
      d ∈ c.quarantined.keys.image QuarantineId.digest := by
    rw [List.mem_map, Finset.mem_image]
    constructor
    · rintro ⟨q, hq, rfl⟩
      obtain ⟨hdigest, hlen⟩ := hfile q hq
      obtain ⟨bytes, hbytes, -⟩ := Option.map_eq_some_iff.mp hlen
      exact ⟨q.id, Finmap.mem_keys.mpr (Finmap.mem_of_lookup_eq_some hbytes), hdigest.symm⟩
    · rintro ⟨id, hid, rfl⟩
      obtain ⟨q, hq, rfl⟩ := List.mem_map.mp (hall id hid)
      exact ⟨q, hq, (hfile q hq).1⟩
  rw [hperm.mem_iff, mem_pendingFrom, hlisted, Finset.mem_filter]
  simp [and_comm]

theorem LocalCas.has_of_mem_pendingDigests {c : LocalCas} {d : Digest}
    (h : d ∈ c.pendingDigests) : c.has d = false := by
  simpa using (Finset.mem_filter.mp (mem_byText.mp h)).2

theorem LocalCas.inventory_ascending (c : LocalCas) :
    c.inventory.Pairwise fun a b => nameKey a.digest.toText < nameKey b.digest.toText :=
  List.pairwise_map.mpr (byText_ascending _)

/-- The inventory lists what the store has. -/
theorem LocalCas.has_iff_inventory {c : LocalCas} {d : Digest} :
    c.has d = true ↔ ∃ b ∈ c.inventory, b.digest = d := by
  have hkeys : c.has d = true ↔ d ∈ c.blobs.keys := by
    rw [has_iff, Finmap.mem_keys, Finmap.mem_iff]
  rw [hkeys, inventory, ← mem_byText]
  constructor
  · intro hd
    exact ⟨_, List.mem_map.mpr ⟨d, hd, rfl⟩, rfl⟩
  · rintro ⟨b, hb, rfl⟩
    obtain ⟨d, hd, rfl⟩ := List.mem_map.mp hb
    exact hd

end NessieStore
