import Mathlib.Data.List.Sort
import NessieStore.Store.State

/-!
# An eviction pass, step by step

`CasStore::evict_to_budget` (`nessie-cas-store`, `evict.rs`), cut at its snapshots: the roots, the
inventory, the guard set with the write times, the order, and then one `reclaim` and one `forget`
for each victim. Everything after the guard snapshot works from what was read before it.

`has_other_holder` asks the router and the oracle over the network, so its answers are part of a
step's label, as are the roots, the inventory's order and the clock. The pass sorts by recency under
one lock per comparison; here the sort reads it once.
-/

set_option autoImplicit false

namespace NessieStore

open Lib

structure EvictReport where
  scanned : Nat := 0
  evicted : Nat := 0
  evictedSole : Nat := 0
  bytesEvicted : Nat := 0
  stillOverBudget : Bool := false
deriving DecidableEq

/-- A call of `evict_to_budget`. -/
inductive Evictor
  | start
  | rooted (pinned : Finset Digest)
  | listed (pinned : Finset Digest) (blobs : List LocalBlob)
  | chosen (candidates : List LocalBlob) (used : Nat)
  /-- Victims still to come, each with whether it is a sole copy. -/
  | draining (queue : List (LocalBlob × Bool)) (used : Nat) (report : EvictReport)
  /-- The victim's file is gone and its bookkeeping is not. -/
  | reclaimed (victim : LocalBlob) (sole : Bool) (queue : List (LocalBlob × Bool)) (used : Nat)
      (report : EvictReport)
  | done (out : Except BackendError EvictReport)

inductive EvictEvent
  | roots (pinned : Finset Digest)
  | list (blobs : List LocalBlob)
  | snapshot (now : Nat)
  /-- The candidates for which another holder is known. -/
  | order (replicated : List Digest)
  | reclaim
  | forget
  | fail (message : String)

/-- No known write time, or one at least `grace` old. -/
def pastGrace (s : CasStore) (now grace : Nat) (d : Digest) : Bool :=
  match s.state.access.writtenAt.lookup d with
  | none => true
  | some w => grace ≤ now - w

/-- Not pinned, not in flight, not fresh. -/
def candidates (s : CasStore) (now grace : Nat) (pinned : Finset Digest) (blobs : List LocalBlob) :
    List LocalBlob :=
  blobs.filter fun b =>
    b.digest ∉ pinned ∧ b.digest ∉ s.state.inFlight ∧ pastGrace s now grace b.digest

/-- Coldest first, blobs with another holder before sole copies. -/
def victims (s : CasStore) (replicated : List Digest) (blobs : List LocalBlob) :
    List (LocalBlob × Bool) :=
  let sorted := blobs.insertionSort fun a b =>
    s.state.access.tick a.digest ≤ s.state.access.tick b.digest
  let (held, sole) := sorted.partition fun b => b.digest ∈ replicated
  held.map (·, false) ++ sole.map (·, true)

namespace Evictor

def step (s : CasStore) : Evictor → EvictEvent → Option (CasStore × Evictor)
  | .start, .roots pinned =>
    match s.mode with
    | .lru .. => some (s, .rooted pinned)
    | .writeOnly _ => some (s, .done (.error (.featureNotSupported "cache-eviction")))
  | .rooted pinned, .list blobs =>
    match s.mode with
    | .lru budget _ =>
      if s.inner.IterLocal blobs then
        if (blobs.map LocalBlob.sizeBytes).sum ≤ budget then some (s, .done (.ok {}))
        else some (s, .listed pinned blobs)
      else none
    | .writeOnly _ => none
  | .listed pinned blobs, .snapshot now =>
    match s.mode with
    | .lru _ grace =>
      some (s, .chosen (candidates s now grace pinned blobs) (blobs.map LocalBlob.sizeBytes).sum)
    | .writeOnly _ => none
  | .chosen blobs used, .order replicated =>
    some (s, .draining (victims s replicated blobs) used { scanned := blobs.length })
  | .draining queue used report, .reclaim =>
    match s.mode, queue with
    | .lru budget _, (victim, sole) :: rest =>
      if used ≤ budget then some (s, .done (.ok { report with stillOverBudget := false }))
      else if s.inner.has victim.digest then
        some ({ s with inner := (s.inner.reclaim victim.digest).2 },
          .reclaimed victim sole rest used report)
      else some (s, .draining rest used report)
    | .lru budget _, [] => some (s, .done (.ok { report with stillOverBudget := budget < used }))
    | .writeOnly _, _ => none
  | .reclaimed victim sole queue used report, .forget =>
    some (s.forget victim.digest,
      .draining queue (used - victim.sizeBytes)
        { report with
          evicted := report.evicted + 1
          evictedSole := report.evictedSole + (if sole then 1 else 0)
          bytesEvicted := report.bytesEvicted + victim.sizeBytes })
  -- the roots, the inventory or a reclaim failed
  | .start, .fail message => some (s, .done (.error (.internal message)))
  | .rooted _, .fail message => some (s, .done (.error (.internal message)))
  | .draining .., .fail message => some (s, .done (.error (.internal message)))
  | _, _ => none

/-- What an eviction pass can do to the store: forget a blob's times, or remove the head of its
queue in `lru` mode. The queue holds what the snapshot chose. -/
inductive Moves : CasStore → Evictor → EvictEvent → CasStore → Evictor → Prop
  | begin {s : CasStore} {budget grace : Nat} {pinned : Finset Digest}
      (hm : s.mode = .lru budget grace) :
      Moves s .start (.roots pinned) s (.rooted pinned)
  | list {s : CasStore} {budget grace : Nat} {pinned : Finset Digest} {blobs : List LocalBlob}
      (hm : s.mode = .lru budget grace) (hl : s.inner.IterLocal blobs) :
      Moves s (.rooted pinned) (.list blobs) s (.listed pinned blobs)
  | snapshot {s : CasStore} {budget grace now : Nat} {pinned : Finset Digest}
      {blobs : List LocalBlob} (hm : s.mode = .lru budget grace) :
      Moves s (.listed pinned blobs) (.snapshot now) s
        (.chosen (candidates s now grace pinned blobs) (blobs.map LocalBlob.sizeBytes).sum)
  | order {s : CasStore} {blobs : List LocalBlob} {used : Nat} {replicated : List Digest} :
      Moves s (.chosen blobs used) (.order replicated) s
        (.draining (victims s replicated blobs) used { scanned := blobs.length })
  | skip {s : CasStore} {victim : LocalBlob} {sole : Bool} {queue : List (LocalBlob × Bool)}
      {used : Nat} {report : EvictReport} (hnot : s.inner.has victim.digest = false) :
      Moves s (.draining ((victim, sole) :: queue) used report) .reclaim s
        (.draining queue used report)
  | reclaim {s : CasStore} {budget grace : Nat} {victim : LocalBlob} {sole : Bool}
      {queue : List (LocalBlob × Bool)} {used : Nat} {report : EvictReport}
      (hm : s.mode = .lru budget grace) (hover : budget < used)
      (hheld : s.inner.has victim.digest = true) :
      Moves s (.draining ((victim, sole) :: queue) used report) .reclaim
        { s with inner := (s.inner.reclaim victim.digest).2 }
        (.reclaimed victim sole queue used report)
  | forget {s : CasStore} {victim : LocalBlob} {sole : Bool} {queue : List (LocalBlob × Bool)}
      {used used' : Nat} {report report' : EvictReport} :
      Moves s (.reclaimed victim sole queue used report) .forget (s.forget victim.digest)
        (.draining queue used' report')
  | finish {s : CasStore} {e : Evictor} {ev : EvictEvent} {out : Except BackendError EvictReport} :
      Moves s e ev s (.done out)

theorem moves_of_step {s s' : CasStore} {e e' : Evictor} {ev : EvictEvent}
    (h : step s e ev = some (s', e')) : Moves s e ev s' e' := by
  cases e with
  | start =>
    cases ev <;> simp only [step, reduceCtorEq] at h
    case roots pinned =>
      split at h
      · next hm => cases h; exact .begin hm
      · cases h; exact .finish
    case fail message => cases h; exact .finish
  | rooted pinned =>
    cases ev <;> simp only [step, reduceCtorEq] at h
    case list blobs =>
      split at h
      · next hm =>
        split at h
        · next hl =>
          split at h
          · cases h; exact .finish
          · cases h; exact .list hm hl
        · cases h
      · cases h
    case fail message => cases h; exact .finish
  | listed pinned blobs =>
    cases ev <;> simp only [step, reduceCtorEq] at h
    case snapshot now =>
      split at h
      · next hm => cases h; exact .snapshot hm
      · cases h
  | chosen blobs used =>
    cases ev <;> simp only [step, reduceCtorEq] at h
    case order replicated => cases h; exact .order
  | draining queue used report =>
    cases ev <;> simp only [step, reduceCtorEq] at h
    case reclaim =>
      split at h
      · next hm =>
        split at h
        · cases h; exact .finish
        · next hover =>
          split at h
          · next hheld => cases h; exact .reclaim hm (by omega) hheld
          · next hheld => cases h; exact .skip (Bool.eq_false_iff.mpr hheld)
      · cases h; exact .finish
      · cases h
    case fail message => cases h; exact .finish
  | reclaimed victim sole queue used report =>
    cases ev <;> simp only [step, reduceCtorEq] at h
    case forget => cases h; exact .forget
  | done out => simp [step] at h

end Evictor

/-- The victims are the candidates, in another order. -/
theorem mem_victims {s : CasStore} {replicated : List Digest} {blobs : List LocalBlob}
    {v : LocalBlob × Bool} (h : v ∈ victims s replicated blobs) : v.1 ∈ blobs := by
  simp only [victims, List.partition_eq_filter_filter, List.mem_append, List.mem_map,
    List.mem_filter, List.mem_insertionSort] at h
  obtain ⟨b, hb, rfl⟩ | ⟨b, hb, rfl⟩ := h
  · exact hb.1
  · exact hb.1

/-- A candidate was neither pinned nor guarded in its snapshot. -/
theorem mem_candidates {s : CasStore} {now grace : Nat} {pinned : Finset Digest}
    {blobs : List LocalBlob} {b : LocalBlob} (h : b ∈ candidates s now grace pinned blobs) :
    b.digest ∉ pinned ∧ b.digest ∉ s.state.inFlight := by
  simp only [candidates, List.mem_filter, decide_eq_true_eq] at h
  exact ⟨h.2.1, h.2.2.1⟩

end NessieStore
