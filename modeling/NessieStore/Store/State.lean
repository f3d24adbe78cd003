import Mathlib.Data.Finset.Insert
import NessieStore.Backend.Local

/-!
# The managed store

`CasStore` (`nessie-cas-store`, `store.rs` and `scrub.rs`) wraps a local backend with the state that
retention needs: the in-flight guard, write times and recency, and in `write_only` mode the books of
the capacity gate. Here are its state, `new`, and the methods that run under the state lock in one
piece. The writes, which do not, are in `Store.Write`, eviction in `Store.Evict`.

The counters are natural numbers, and the gate's test saturates as the source does. A `u64` counter
and this one part ways only past 2^64 bytes in flight at once.
-/

set_option autoImplicit false

namespace NessieStore

open Lib

/-- Per-blob write time and recency. -/
structure AccessLog where
  writtenAt : Map Digest Nat
  lastTouch : Map Digest Nat
  nextTick : Nat

namespace AccessLog

def empty : AccessLog := ⟨∅, ∅, 0⟩

def touch (a : AccessLog) (d : Digest) : AccessLog :=
  { a with nextTick := a.nextTick + 1, lastTouch := a.lastTouch.insert d a.nextTick }

def recordWrite (a : AccessLog) (d : Digest) (now : Nat) : AccessLog :=
  { a with writtenAt := a.writtenAt.insert d now }.touch d

def seedWritten (a : AccessLog) (d : Digest) (now : Nat) : AccessLog :=
  { a with writtenAt := a.writtenAt.insert d now }

/-- The recency tick; a blob never touched counts as coldest. -/
def tick (a : AccessLog) (d : Digest) : Nat := (a.lastTouch.lookup d).getD 0

def forget (a : AccessLog) (d : Digest) : AccessLog :=
  { a with writtenAt := a.writtenAt.erase d, lastTouch := a.lastTouch.erase d }

end AccessLog

/-- What the state lock protects. -/
structure StoreState where
  /-- Blobs written and neither committed nor abandoned yet. -/
  inFlight : Finset Digest
  access : AccessLog
  /-- The bytes each live blob was charged. -/
  accounted : Map Digest Nat
  /-- The bytes each quarantined file is charged. -/
  quarantined : Map QuarantineId Nat
  /-- How many ungated re-puts of a digest are running. -/
  fastInflight : Map Digest Nat
  committed : Nat

/-- `StorageMode` with its tuning. -/
inductive StorageMode
  | lru (byteBudget gcGrace : Nat)
  | writeOnly (capacity : Nat)
deriving DecidableEq

/-- A retention-managed store. The router is advisory and leaves no trace here. -/
structure CasStore where
  inner : LocalCas
  mode : StorageMode
  state : StoreState
  /-- The lock-free mirror of `state.committed`. -/
  committed : Nat
  /-- Bytes reserved by writers that are still streaming. -/
  pending : Nat

/-- What `CasStore::quarantine` did. -/
inductive Quarantine
  | moved (q : QuarantinedBlob)
  | absent
  | deferred
deriving DecidableEq

namespace CasStore

/-- `CasStore::new`, over what the two enumerations returned. -/
def new (inner : LocalCas) (mode : StorageMode) (now : Nat) (blobs : List LocalBlob)
    (quarantine : List QuarantinedBlob) : CasStore :=
  let state : StoreState :=
    { inFlight := ∅
      access := blobs.foldl (fun a b => a.seedWritten b.digest now) .empty
      accounted := Map.insertAll ∅ (blobs.map fun b => (b.digest, b.sizeBytes))
      quarantined := Map.insertAll ∅ (quarantine.map fun q => (q.id, q.sizeBytes))
      fastInflight := ∅
      committed := (blobs.map LocalBlob.sizeBytes).sum + (quarantine.map (·.sizeBytes)).sum }
  { inner, mode, state, committed := state.committed, pending := 0 }

/-- Charge `size` bytes to `d`, once; a write that read nothing charges nothing. -/
def account (s : CasStore) (d : Digest) (size : Nat) : CasStore :=
  if size = 0 then s
  else
    match s.state.accounted.lookup d with
    | some _ => s
    | none =>
      { s with
        state := { s.state with
          accounted := s.state.accounted.insert d size
          committed := s.state.committed + size }
        committed := s.state.committed + size }

/-- Register an ungated re-put. -/
def register (s : CasStore) (d : Digest) : CasStore :=
  { s with state := { s.state with
      fastInflight := s.state.fastInflight.insert d ((s.state.fastInflight.lookup d).getD 0 + 1) } }

/-- `FastWrite::drop`. -/
def deregister (s : CasStore) (d : Digest) : CasStore :=
  match s.state.fastInflight.lookup d with
  | none => s
  | some n =>
    if n - 1 = 0 then { s with state := { s.state with fastInflight := s.state.fastInflight.erase d } }
    else { s with state := { s.state with fastInflight := s.state.fastInflight.insert d (n - 1) } }

/-- Guard a written blob and make it the most recent. -/
def afterWrite (s : CasStore) (d : Digest) (now : Nat) : CasStore :=
  { s with state := { s.state with
      inFlight := insert d s.state.inFlight
      access := s.state.access.recordWrite d now } }

/-- `committed` and `abandon` both release the guard. -/
def releaseGuard (s : CasStore) (d : Digest) : CasStore :=
  { s with state := { s.state with inFlight := s.state.inFlight.erase d } }

/-- Forget a reclaimed blob's write time and recency. -/
def forget (s : CasStore) (d : Digest) : CasStore :=
  { s with state := { s.state with access := s.state.access.forget d } }

/-- Land a finished write. -/
def land (s : CasStore) (d : Digest) (bytes : Bytes) : CasStore :=
  { s with inner := s.inner.land d bytes }

/-- The bookkeeping of `quarantine` once the file has moved: credit what was charged, debit what the
file measures. -/
def moveCharge (s : CasStore) (d : Digest) (q : QuarantinedBlob) : CasStore :=
  let credit := (s.state.accounted.lookup d).getD 0
  let committed := s.state.committed - credit + q.sizeBytes
  { s with
    state := { s.state with
      accounted := s.state.accounted.erase d
      committed
      quarantined := s.state.quarantined.insert q.id q.sizeBytes
      access := s.state.access.forget d }
    committed }

/-- Move the live copy of `d` aside and its charge with it. An error of the backend books nothing,
whether or not the file has moved. -/
def quarantine (s : CasStore) (d : Digest) (stat : Option String) :
    Except BackendError Quarantine × CasStore :=
  if (s.state.fastInflight.lookup d).isSome then (.ok .deferred, s)
  else
    match s.inner.quarantine d stat with
    | (.error e, inner) => (.error e, { s with inner })
    | (.ok none, inner) => (.ok .absent, { s with inner })
    | (.ok (some q), inner) => (.ok (.moved q), { s with inner }.moveCharge d q)

/-- The bookkeeping of `reclaim_corrupt` once the corrupt file is gone. -/
def creditReclaimed (s : CasStore) (d : Digest) : CasStore :=
  let credit := (s.state.accounted.lookup d).getD 0
  { s with
    state := { s.state with
      accounted := s.state.accounted.erase d
      committed := s.state.committed - credit
      access := s.state.access.forget d }
    committed := s.state.committed - credit }

/-- What `mode_name` reports: `write_only`, or `lru`. -/
def writeOnly (s : CasStore) : Bool :=
  match s.mode with
  | .writeOnly _ => true
  | .lru .. => false

/-- Would the gate admit a write of `size` bytes now? -/
def admits (s : CasStore) (size : Nat) : Bool :=
  match s.mode with
  | .lru .. => true
  | .writeOnly capacity => saturatingAdd (s.committed + s.pending) size ≤ capacity

/-! ## What the methods do -/

section Methods

variable (s : CasStore) (d : Digest)

/-- A write that read nothing, or of a charged digest, charges nothing. -/
theorem account_of_free {s : CasStore} {d : Digest} {n : Nat}
    (h : n = 0 ∨ ∃ m, s.state.accounted.lookup d = some m) : s.account d n = s := by
  unfold account
  rcases h with h0 | ⟨m, hm⟩
  · rw [if_pos h0]
  · split
    · rfl
    · rw [hm]

theorem account_of_new {s : CasStore} {d : Digest} {n : Nat} (h0 : n ≠ 0)
    (hnone : s.state.accounted.lookup d = none) :
    s.account d n = { s with
      state := { s.state with
        accounted := s.state.accounted.insert d n
        committed := s.state.committed + n }
      committed := s.state.committed + n } := by
  unfold account
  rw [if_neg h0, hnone]

@[simp] theorem account_inner (n : Nat) : (s.account d n).inner = s.inner := by
  unfold account
  split
  · rfl
  · split <;> rfl

@[simp] theorem account_mode (n : Nat) : (s.account d n).mode = s.mode := by
  unfold account
  split
  · rfl
  · split <;> rfl

@[simp] theorem account_pending (n : Nat) : (s.account d n).pending = s.pending := by
  unfold account
  split
  · rfl
  · split <;> rfl

@[simp] theorem account_inFlight (n : Nat) :
    (s.account d n).state.inFlight = s.state.inFlight := by
  unfold account
  split
  · rfl
  · split <;> rfl

/-- The running re-puts of a digest. -/
def fast (s : CasStore) (d : Digest) : Nat := (s.state.fastInflight.lookup d).getD 0

@[simp] theorem account_fast (n : Nat) (d' : Digest) : (s.account d n).fast d' = s.fast d' := by
  unfold account
  split
  · rfl
  · split <;> rfl

theorem register_fast (d' : Digest) :
    (s.register d).fast d' = s.fast d' + if d' = d then 1 else 0 := by
  simp only [fast, register, Map.lookup_insert_eq]
  split
  · next h => rw [h]; rfl
  · rfl

/-- Dropping a registration changes the registrations only. -/
theorem deregister_eq : ∃ fast, s.deregister d =
    { s with state := { s.state with fastInflight := fast } } := by
  unfold deregister
  split
  · exact ⟨s.state.fastInflight, rfl⟩
  · split
    · exact ⟨_, rfl⟩
    · exact ⟨_, rfl⟩

theorem deregister_fast (d' : Digest) :
    (s.deregister d).fast d' = s.fast d' - if d' = d then 1 else 0 := by
  unfold deregister
  split
  · next hn =>
    split
    · next h => subst h; rw [fast, hn]; rfl
    · rfl
  · next n hn =>
    split
    · next h1 =>
      simp only [fast, Map.lookup_erase_eq]
      split
      · next h => rw [h, hn]; exact h1.symm
      · rfl
    · simp only [fast, Map.lookup_insert_eq]
      split
      · next h => rw [h, hn]; rfl
      · rfl

/-- A quarantine leaves the store as it was, or moves the file; the charge moves with it unless the
stat fails. -/
theorem quarantine_cases (stat : Option String) : (s.quarantine d stat).2 = s ∨
    s.state.fastInflight.lookup d = none ∧
      ∃ bytes, s.inner.blobs.lookup d = some bytes ∧
        ((s.quarantine d stat).2 = { s with inner := s.inner.setAside d bytes }.moveCharge d
            ⟨⟨d, s.inner.freeSlot d⟩, d, bytes.length⟩ ∨
          stat ≠ none ∧ (s.quarantine d stat).2 = { s with inner := s.inner.setAside d bytes }) := by
  by_cases hfast : (s.state.fastInflight.lookup d).isSome
  · left
    simp [quarantine, if_pos hfast]
  · rcases s.inner.quarantine_eq d stat with ⟨-, bytes, hb, hq⟩ | hq
    · refine .inr ⟨Option.not_isSome_iff_eq_none.mp hfast, bytes, hb, ?_⟩
      rcases hq with ⟨-, hq⟩ | ⟨e, rfl, hq⟩
      · left
        simp only [quarantine, if_neg hfast, hq]
      · right
        simp [quarantine, if_neg hfast, hq]
    · left
      simp [quarantine, if_neg hfast, hq]

/-- Whatever becomes of the books, the file of `d` moves or stays, and the mode and the
registrations are as they were. -/
theorem quarantine_inner (stat : Option String) :
    ((s.quarantine d stat).2.inner = s.inner ∨
      ∃ bytes, (s.quarantine d stat).2.inner = s.inner.setAside d bytes) ∧
    (s.quarantine d stat).2.mode = s.mode ∧
    (s.quarantine d stat).2.state.fastInflight = s.state.fastInflight := by
  rcases s.quarantine_cases d stat with heq | ⟨-, bytes, -, heq | ⟨-, heq⟩⟩
  · rw [heq]
    exact ⟨.inl rfl, rfl, rfl⟩
  · rw [heq]
    exact ⟨.inr ⟨bytes, rfl⟩, rfl, rfl⟩
  · rw [heq]
    exact ⟨.inr ⟨bytes, rfl⟩, rfl, rfl⟩

@[simp] theorem quarantine_fast (stat : Option String) (d' : Digest) :
    (s.quarantine d stat).2.fast d' = s.fast d' := by
  rw [fast, fast, (s.quarantine_inner d stat).2.2]

/-- What is moved from the live charges to the quarantine's leaves the sum true. -/
theorem moveCharge_books {s : CasStore} {d : Digest} {q : QuarantinedBlob}
    (h : s.state.committed = Map.total id s.state.accounted + Map.total id s.state.quarantined)
    (hslot : s.state.quarantined.lookup q.id = none) :
    (s.moveCharge d q).state.committed = Map.total id (s.moveCharge d q).state.accounted +
      Map.total id (s.moveCharge d q).state.quarantined := by
  simp only [moveCharge, Map.total_insert_new hslot, id]
  cases hl : s.state.accounted.lookup d with
  | none =>
    rw [Map.total_erase_of_none hl, Option.getD_none]
    omega
  | some n =>
    have herase := Map.total_erase (f := id) hl
    simp only [id] at herase
    rw [Option.getD_some]
    omega

end Methods

end CasStore

/-- The store changed at most in `pending`, the registrations, the guard and the access log. -/
structure SameBooks (s s' : CasStore) : Prop where
  inner : s'.inner = s.inner
  mode : s'.mode = s.mode
  mirror : s'.committed = s.committed
  committed : s'.state.committed = s.state.committed
  accounted : s'.state.accounted = s.state.accounted
  quarantined : s'.state.quarantined = s.state.quarantined

theorem SameBooks.rfl' (s : CasStore) : SameBooks s s := ⟨rfl, rfl, rfl, rfl, rfl, rfl⟩

theorem SameBooks.deregister (s : CasStore) (d : Digest) (reg : Bool) :
    SameBooks s (if reg then s.deregister d else s) := by
  obtain ⟨fast, h⟩ := s.deregister_eq d
  split
  · rw [h]; exact ⟨rfl, rfl, rfl, rfl, rfl, rfl⟩
  · exact .rfl' s

namespace CasStore

/-! ## The books a store opens with -/

section New

variable {inner : LocalCas} {mode : StorageMode} {now : Nat} {blobs : List LocalBlob}
  {quarantine : List QuarantinedBlob}

theorem new_accounted (hl : inner.IterLocal blobs) (d : Digest) :
    (new inner mode now blobs quarantine).state.accounted.lookup d = inner.size d := by
  have hnodup : ((blobs.map fun b => (b.digest, b.sizeBytes)).map Prod.fst).Nodup := by
    simpa [Function.comp_def] using hl.1
  apply Option.ext
  intro n
  simp only [new]
  rw [Map.lookup_insertAll hnodup]
  simp only [List.mem_map, Prod.mk.injEq, Finmap.lookup_empty, reduceCtorEq, and_false, or_false]
  constructor
  · rintro ⟨b, hb, rfl, rfl⟩
    exact (hl.mem_iff b).mp hb
  · intro h
    exact ⟨⟨d, n⟩, (hl.mem_iff ⟨d, n⟩).mpr h, rfl, rfl⟩

theorem new_quarantined (hq : inner.IterQuarantine quarantine) (id : QuarantineId) :
    (new inner mode now blobs quarantine).state.quarantined.lookup id =
      (inner.quarantined.lookup id).map List.length := by
  have hnodup : ((quarantine.map fun q => (q.id, q.sizeBytes)).map Prod.fst).Nodup := by
    simpa [Function.comp_def] using hq.1
  apply Option.ext
  intro n
  simp only [new]
  rw [Map.lookup_insertAll hnodup]
  simp only [List.mem_map, Prod.mk.injEq, Finmap.lookup_empty, reduceCtorEq, and_false, or_false]
  constructor
  · rintro ⟨q, hmem, rfl, rfl⟩
    exact ((hq.mem_iff q).mp hmem).2
  · intro h
    exact ⟨⟨id, id.digest, n⟩, (hq.mem_iff ⟨id, id.digest, n⟩).mpr ⟨rfl, h⟩, rfl, rfl⟩

/-- A new store has counted exactly its charges. -/
theorem new_committed (hl : inner.IterLocal blobs) (hq : inner.IterQuarantine quarantine) :
    (new inner mode now blobs quarantine).state.committed =
      Map.total id (new inner mode now blobs quarantine).state.accounted +
        Map.total id (new inner mode now blobs quarantine).state.quarantined := by
  have hlnodup : ((blobs.map fun b => (b.digest, b.sizeBytes)).map Prod.fst).Nodup := by
    simpa [Function.comp_def] using hl.1
  have hqnodup : ((quarantine.map fun q => (q.id, q.sizeBytes)).map Prod.fst).Nodup := by
    simpa [Function.comp_def] using hq.1
  simp only [new]
  rw [Map.total_insertAll id hlnodup fun d _ => Finmap.lookup_empty d,
    Map.total_insertAll id hqnodup fun d _ => Finmap.lookup_empty d]
  simp [Function.comp_def]

/-- What it has counted is what is on disk. -/
theorem new_committed_eq_bytes (hl : inner.IterLocal blobs) (hq : inner.IterQuarantine quarantine) :
    (new inner mode now blobs quarantine).state.committed =
      inner.liveBytes + inner.quarantineBytes := by
  rw [new_committed hl hq]
  congr 1
  · exact Map.total_congr fun d => by rw [new_accounted hl]; simp [LocalCas.size]
  · exact Map.total_congr fun id => by rw [new_quarantined hq]; simp

end New

end CasStore

end NessieStore
