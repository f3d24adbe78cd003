import NessieStore.Lib.Pool
import NessieStore.Lib.Run
import NessieStore.Mirror.Store

/-!
# Transfers, step by step

`create_transfer` (`nessie-store`, `snapmirror.rs`), cut at its lock sections and at its two awaits.
Behind each await a job runs on the blocking pool: the first snapshots the source, the second sends
the stream to the peer. A job that was started runs to its end, whoever waits for it. The request's
future can be dropped while it waits; that drops the `TransferGuard`, which clears the relationship's
flag, and leaves the job on its own (`TransferCall.detached`).

What a job comes back with is chosen by the environment, an error by its text. Beside the transfers
run the handlers of peers and relationships, each in one lock section. A relationship's uuid is drawn
once (`MirrorSys.drawn`).
-/

set_option autoImplicit false

namespace NessieStore

open Lib SnapMirrorStore

/-- How far a transfer that holds the guard has come. -/
inductive TransferPhase
  /-- Waiting for the first job, which runs. -/
  | snapshotting (sourcePath : Text)
  /-- The first job is over; the future has not been polled since. -/
  | snapshotted (result : Except String VolumeUuid)
  /-- Waiting for the second job, which runs. -/
  | streaming (sourceVol : VolumeUuid) (target : Target)
  | streamed (result : Except String Nat)
  /-- There is no reachable peer. -/
  | settling
  | recording (bytesTransferred : Nat)

inductive TransferJob
  | snapshot
  | stream
deriving DecidableEq

/-- A call of `create_transfer`; `seq` is the number in its snapshot's name. -/
inductive TransferCall
  | start (uuid : Text)
  | held (uuid : Text) (seq : Nat) (phase : TransferPhase)
  /-- Returning: only the guard is left to drop. -/
  | leaving (uuid : Text) (response : ApiResponse)
  | done (response : ApiResponse)
  /-- The future was dropped, its job runs on. -/
  | detached (uuid : Text) (seq : Nat) (job : TransferJob)
  | gone

inductive TransferEvent
  /-- The call runs to its next lock section or await; the uuid and the time are of the record that
  it may push. -/
  | resume (fresh now : Text)
  | snapshotEnds (result : Except String VolumeUuid)
  | streamEnds (result : Except String Nat)
  | drop

namespace TransferCall

def failedRecord (fresh now snapshot : Text) : Transfer :=
  ⟨fresh, "failed".toList, 0, snapshot, now⟩

def successRecord (fresh now snapshot : Text) (bytesTransferred : Nat) : Transfer :=
  ⟨fresh, "success".toList, bytesTransferred, snapshot, now⟩

/-- A call that holds the guard runs on, to the end of its next lock section. -/
def resumeHeld (s : SnapMirrorStore) (uuid : Text) (seq : Nat) (fresh now : Text) :
    TransferPhase → Option (SnapMirrorStore × TransferCall)
  | .snapshotting _ => none
  | .snapshotted (.ok vol) =>
    match s.target uuid with
    | some target => some (s, .held uuid seq (.streaming vol target))
    | none => some (s, .held uuid seq .settling)
  | .snapshotted (.error e) =>
    some (s.failTransfer uuid (failedRecord fresh now []),
      .leaving uuid (.error 500 "500" "snapmirror" ("transfer failed: " ++ e)))
  | .streaming .. => none
  | .streamed (.ok bytes) =>
    some (s.advanceBase uuid (snapName uuid seq), .held uuid seq (.recording bytes))
  | .streamed (.error e) =>
    some (s.failTransfer uuid (failedRecord fresh now (snapName uuid seq)),
      .leaving uuid (.error 500 "500" "snapmirror" ("replication transfer failed: " ++ e)))
  | .settling => some (s.settleOnly uuid, .held uuid seq (.recording 0))
  | .recording bytes =>
    let recorded := s.recordTransfer uuid (successRecord fresh now (snapName uuid seq) bytes)
    some (recorded.2, .leaving uuid recorded.1)

/-- What becomes of a future that is dropped while it waits. -/
def dropHeld (uuid : Text) (seq : Nat) : TransferPhase → Option TransferCall
  | .snapshotting _ => some (.detached uuid seq .snapshot)
  | .snapshotted _ => some .gone
  | .streaming .. => some (.detached uuid seq .stream)
  | .streamed _ => some .gone
  | _ => none

def step (s : SnapMirrorStore) : TransferCall → TransferEvent → Option (SnapMirrorStore × TransferCall)
  | .start uuid, .resume _ _ =>
    match s.beginTransfer uuid with
    | .error response => some (s, .done response)
    | .ok (sourcePath, seq, s') => some (s', .held uuid seq (.snapshotting sourcePath))
  | .held uuid seq phase, .resume fresh now => resumeHeld s uuid seq fresh now phase
  | .held uuid seq (.snapshotting _), .snapshotEnds result =>
    some (s, .held uuid seq (.snapshotted result))
  | .held uuid seq (.streaming ..), .streamEnds result =>
    some (s, .held uuid seq (.streamed result))
  | .held uuid seq phase, .drop => (dropHeld uuid seq phase).map fun c => (s.dropGuard uuid, c)
  | .leaving uuid response, .resume _ _ => some (s.dropGuard uuid, .done response)
  | .detached _ _ .snapshot, .snapshotEnds _ => some (s, .gone)
  | .detached _ _ .stream, .streamEnds _ => some (s, .gone)
  | _, _ => none

/-- The relationship whose flag the call took, and has not given back. -/
def holds : TransferCall → Option Text
  | .held uuid _ _ => some uuid
  | .leaving uuid _ => some uuid
  | _ => none

/-- The relationship and the number of the transfer whose job is running. -/
def job : TransferCall → Option (Text × Nat × TransferJob)
  | .held uuid seq (.snapshotting _) => some (uuid, seq, .snapshot)
  | .held uuid seq (.streaming ..) => some (uuid, seq, .stream)
  | .detached uuid seq job => some (uuid, seq, job)
  | _ => none

end TransferCall

/-! ## The system -/

structure MirrorSys where
  store : SnapMirrorStore
  calls : List TransferCall
  /-- The relationship uuids that were drawn. -/
  drawn : Finset Text

def MirrorSys.new : MirrorSys := ⟨.new, [], ∅⟩

inductive MirrorAct
  | createPeer (fresh freshToken : Text) (body : PeerBody)
  | deletePeer (uuid : Text)
  | createRelationship (fresh : Text) (listing : List (Text × Peer)) (body : RelationshipBody)
  | patchRelationship (uuid : Text) (body : RelationshipPatch)
  | deleteRelationship (uuid : Text)
  /-- A request for a transfer arrives. -/
  | createTransfer (uuid : Text)
  /-- Call `i` moves. -/
  | call (i : Nat) (ev : TransferEvent)

def mirrorStep (x : MirrorSys) : MirrorAct → Option MirrorSys
  | .createPeer fresh freshToken body =>
    some { x with store := (x.store.createPeer fresh freshToken body).2 }
  | .deletePeer uuid => some { x with store := (x.store.deletePeer uuid).2 }
  | .createRelationship fresh listing body =>
    if fresh ∉ x.drawn ∧ Map.Lists x.store.peers listing then
      some { x with
        store := (x.store.createRelationship fresh listing body).2
        drawn := insert fresh x.drawn }
    else none
  | .patchRelationship uuid body =>
    some { x with store := (x.store.patchRelationship uuid body).2 }
  | .deleteRelationship uuid => some { x with store := (x.store.deleteRelationship uuid).2 }
  | .createTransfer uuid => some { x with calls := x.calls ++ [.start uuid] }
  | .call i ev =>
    (stepAt (fun s c => TransferCall.step s c ev) x.store x.calls i).map fun r =>
      { x with store := r.1, calls := r.2 }

end NessieStore
