import NessieStore.Store.State

/-!
# Scrubbing one blob, step by step

`CasNode::scrub_one` with `take_out_corrupt` (`nessie-store`, `cas_node/scrub.rs`) over the store's
`verify_local`, `reclaim_corrupt` and `quarantine` (`nessie-cas-store`, `scrub.rs`). A pass runs it
on one blob of the inventory after the other; here any number of calls run on any digests.

The verdict is reached without a lock. In `lru` mode it is reached again under the pin lock and a
third time by `reclaim_if_corrupt`, which holds the backend's commit lock from that verdict to the
unlink. In `write_only` mode `quarantine` renames the file on the first verdict alone, also when the
stat that follows the rename fails. The restore that follows a quarantine is an ordinary
`put_keyed`.
-/

set_option autoImplicit false

namespace NessieStore

open Lib

inductive ScrubOutcome
  | healthy
  /-- Not held, or unreadable. -/
  | skipped
  /-- `lru`: a corrupt copy was removed, or was healthy or gone by then. -/
  | reclaimed (removed : Bool)
  /-- `write_only`. -/
  | quarantined (what : Quarantine)
  | failed (e : BackendError)
deriving DecidableEq

/-- A call of `scrub_one`. -/
inductive Scrubber
  | start (d : Digest)
  /-- `verify_local` answered `false`. -/
  | condemned (d : Digest)
  /-- `lru`: it answered `false` again under the pin lock. -/
  | rechecked (d : Digest)
  /-- `lru`: `reclaim_if_corrupt` holds the commit lock and has found the copy corrupt. -/
  | locked (d : Digest)
  | done (out : ScrubOutcome)
deriving DecidableEq

inductive ScrubEvent
  | verify
  | recheck
  | lock
  | unlink
  | quarantine (stat : Option String)
  | fail (message : String)
deriving DecidableEq

namespace Scrubber

variable (H : HashFn)

def step (s : CasStore) : Scrubber → ScrubEvent → Option (CasStore × Scrubber)
  | .start d, .verify =>
    match s.inner.verify H d with
    | .ok true => some (s, .done .healthy)
    | .ok false => some (s, .condemned d)
    | .error _ => some (s, .done .skipped)
  | .condemned d, .recheck =>
    match s.mode, s.inner.verify H d with
    | .lru .., .ok false => some (s, .rechecked d)
    | .lru .., _ => some (s, .done (.reclaimed false))
    | .writeOnly _, _ => none
  | .rechecked d, .lock =>
    if s.inner.commitLock then none
    else
      match s.inner.verify H d with
      | .ok false => some ({ s with inner := { s.inner with commitLock := true } }, .locked d)
      | _ => some (s, .done (.reclaimed false))
  | .locked d, .unlink =>
    some ({ s with inner := { (s.inner.reclaim d).2 with commitLock := false } }.creditReclaimed d,
      .done (.reclaimed true))
  | .locked _, .fail message =>
    some ({ s with inner := { s.inner with commitLock := false } }, .done (.failed (.internal message)))
  | .condemned d, .quarantine stat =>
    match s.mode with
    | .writeOnly _ =>
      match s.quarantine d stat with
      | (.ok what, s) => some (s, .done (.quarantined what))
      | (.error e, s) => some (s, .done (.failed e))
    | .lru .. => none
  | .condemned _, .fail message => some (s, .done (.failed (.internal message)))
  | .rechecked _, .fail message => some (s, .done (.failed (.internal message)))
  | _, _ => none

/-- What a scrub can do, one constructor for each transition that matters. -/
inductive Moves : CasStore → Scrubber → ScrubEvent → CasStore → Scrubber → Prop
  | condemn {s : CasStore} {d : Digest} (hv : s.inner.verify H d = .ok false) :
      Moves s (.start d) .verify s (.condemned d)
  | recheck {s : CasStore} {d : Digest} {budget grace : Nat} (hm : s.mode = .lru budget grace)
      (hv : s.inner.verify H d = .ok false) :
      Moves s (.condemned d) .recheck s (.rechecked d)
  | lock {s : CasStore} {d : Digest} (hlock : s.inner.commitLock = false)
      (hv : s.inner.verify H d = .ok false) :
      Moves s (.rechecked d) .lock { s with inner := { s.inner with commitLock := true } } (.locked d)
  | unlink {s : CasStore} {d : Digest} :
      Moves s (.locked d) .unlink
        ({ s with inner := { (s.inner.reclaim d).2 with commitLock := false } }.creditReclaimed d)
        (.done (.reclaimed true))
  | unlock {s : CasStore} {d : Digest} {message : String} :
      Moves s (.locked d) (.fail message) { s with inner := { s.inner with commitLock := false } }
        (.done (.failed (.internal message)))
  | quarantine {s : CasStore} {d : Digest} {capacity : Nat} {stat : Option String}
      {out : ScrubOutcome} (hm : s.mode = .writeOnly capacity) :
      Moves s (.condemned d) (.quarantine stat) (s.quarantine d stat).2 (.done out)
  /-- The call ends and nothing changes; it does not hold the commit lock. -/
  | finish {s : CasStore} {c : Scrubber} {ev : ScrubEvent} {out : ScrubOutcome}
      (hc : ∀ d, c ≠ .locked d) : Moves s c ev s (.done out)

variable {H}

theorem moves_of_step {s s' : CasStore} {c c' : Scrubber} {ev : ScrubEvent}
    (h : step H s c ev = some (s', c')) : Moves H s c ev s' c' := by
  cases c with
  | start d =>
    cases ev <;> simp only [step, reduceCtorEq] at h
    case verify =>
      split at h
      · cases h; exact .finish (by simp)
      · next hv => cases h; exact .condemn hv
      · cases h; exact .finish (by simp)
  | condemned d =>
    cases ev <;> simp only [step, reduceCtorEq] at h
    case recheck =>
      split at h
      · next hm hv => cases h; exact .recheck hm hv
      · cases h; exact .finish (by simp)
      · cases h
    case quarantine stat =>
      split at h
      · next hm =>
        have hmove : ∀ out, Moves H s (.condemned d) (.quarantine stat) (s.quarantine d stat).2
            (.done out) := fun _ => .quarantine hm
        split at h
        · next hq => cases h; rw [hq] at hmove; exact hmove _
        · next hq => cases h; rw [hq] at hmove; exact hmove _
      · cases h
    case fail message => cases h; exact .finish (by simp)
  | rechecked d =>
    cases ev <;> simp only [step, reduceCtorEq] at h
    case lock =>
      split at h
      · cases h
      · next hl =>
        split at h
        · next hv => cases h; exact .lock (Bool.eq_false_iff.mpr hl) hv
        · cases h; exact .finish (by simp)
    case fail message => cases h; exact .finish (by simp)
  | locked d =>
    cases ev <;> simp only [step, reduceCtorEq] at h
    case unlink => cases h; exact .unlink
    case fail message => cases h; exact .unlock
  | done out => simp [step] at h

end Scrubber

end NessieStore
