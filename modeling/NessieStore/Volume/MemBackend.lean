import Mathlib.Data.Finset.Max
import NessieStore.Core.Ascending
import NessieStore.Lib.Ledger
import NessieStore.Volume.Descriptor

/-!
# The in-memory volume backend

`MemBackend` (`nessie-backend-mem`) with the volume and snapshot types of `nessie-backend-core`. Every
operation holds the one mutex from its first read to its last write, so it is a function on what the
mutex guards; `list_volumes` and the other reads that change nothing and decide nothing here are left
out. A new uuid is an argument, and so is the `{:?}` of the messages.

An `expect` on a missing entry is an outcome of its own (`Outcome.panicked`), so that whether it can
happen is a question about the model.
-/

set_option autoImplicit false

namespace NessieStore

open Lib

/-! ## Volumes and snapshots -/

inductive VolumeState
  | online
  | offline
  | restricted
deriving DecidableEq

inductive VolumeStyle
  | flexvol
deriving DecidableEq

inductive VolumeType
  | rw
  | dp
deriving DecidableEq

/-- Where a clone diverged from, by name. -/
structure CloneOrigin where
  parentVolume : Text
  parentSnapshot : Text
deriving DecidableEq

structure Volume where
  uuid : VolumeUuid
  name : Text
  sizeBytes : Option UInt64
  state : VolumeState
  style : VolumeStyle
  volType : VolumeType
  clone : Option CloneOrigin
deriving DecidableEq

structure Snapshot where
  uuid : SnapshotUuid
  name : Text
  /-- Seconds; this backend records none. -/
  createTime : Option Nat
  sizeConsumed : UInt64
deriving DecidableEq

structure VolumeSpec where
  name : Text
  sizeBytes : Option UInt64
deriving DecidableEq

structure VolumePatch where
  sizeBytes : Option UInt64
  junctionPath : Option Text
  exportPolicy : Option Text
deriving DecidableEq

abbrev Snapshots := Map SnapshotUuid Snapshot

/-- `snaps.values().any(|s| s.name == name)`. -/
def Snapshots.hasNamed (snaps : Snapshots) (name : Text) : Bool :=
  ∃ id ∈ snaps.keys, (snaps.lookup id).any (·.name = name)

def Snapshots.add (snaps : Snapshots) (uuid : SnapshotUuid) (name : Text) : Snapshots :=
  snaps.insert uuid ⟨uuid, name, none, 0⟩

/-! ## The backend -/

/-- `Inner`. -/
structure MemBackend where
  volumes : Map VolumeUuid Volume
  /-- Every live volume has an entry. -/
  snapshots : Map VolumeUuid Snapshots
  /-- Volume names in use. -/
  names : Finset Text

/-- What an operation comes back with. -/
inductive Outcome (α : Type)
  | ok (value : α)
  | error (e : BackendError)
  /-- An `expect` found no entry. -/
  | panicked (message : String)
deriving DecidableEq

def Outcome.map {α β : Type} (f : α → β) : Outcome α → Outcome β
  | .ok value => .ok (f value)
  | .error e => .error e
  | .panicked message => .panicked message

def newVolume (uuid : VolumeUuid) (name : Text) (sizeBytes : Option UInt64)
    (clone : Option CloneOrigin) : Volume :=
  ⟨uuid, name, sizeBytes, .online, .flexvol, .rw, clone⟩

namespace MemBackend

def new : MemBackend := ⟨∅, ∅, ∅⟩

/-- The three insertions that `create_volume`, `create_clone` and `receive_stream` make. -/
def addVolume (b : MemBackend) (vol : Volume) : MemBackend :=
  ⟨b.volumes.insert vol.uuid vol, b.snapshots.insert vol.uuid ∅, insert vol.name b.names⟩

/-- `volumes.values().find(|v| v.name == name)`. A map lists its values in any order; here the volume
with the least uuid is found, and no more than one can be (`Consistent.unique`). -/
def volumeNamed (b : MemBackend) (name : Text) : Option Volume :=
  let named := b.volumes.keys.filter fun u => (b.volumes.lookup u).any (·.name = name)
  match (named.image VolumeUuid.id).min with
  | none => none
  | some id => b.volumes.lookup ⟨id⟩

def createVolume (b : MemBackend) (fresh : VolumeUuid) (spec : VolumeSpec) :
    Outcome Volume × MemBackend :=
  if spec.name ∈ b.names then (.error (.volumeExists spec.name), b)
  else
    let vol := newVolume fresh spec.name spec.sizeBytes none
    (.ok vol, b.addVolume vol)

def deleteVolume (b : MemBackend) (uuid : VolumeUuid) : Outcome Unit × MemBackend :=
  match b.volumes.lookup uuid with
  | none => (.error (.volumeNotFound uuid), b)
  | some vol =>
    (.ok (), ⟨b.volumes.erase uuid, b.snapshots.erase uuid, b.names.erase vol.name⟩)

def createSnapshot (b : MemBackend) (fresh : SnapshotUuid) (vol : VolumeUuid) (name : Text) :
    Outcome Snapshot × MemBackend :=
  match b.snapshots.lookup vol with
  | none => (.error (.volumeNotFound vol), b)
  | some snaps =>
    if snaps.hasNamed name then (.error (.snapshotExists vol name), b)
    else (.ok ⟨fresh, name, none, 0⟩,
      { b with snapshots := b.snapshots.insert vol (snaps.add fresh name) })

def deleteSnapshot (b : MemBackend) (vol : VolumeUuid) (snap : SnapshotUuid) :
    Outcome Unit × MemBackend :=
  match b.snapshots.lookup vol with
  | none => (.error (.volumeNotFound vol), b)
  | some snaps =>
    match snaps.lookup snap with
    | none => (.error (.snapshotNotFound vol snap), b)
    | some _ => (.ok (), { b with snapshots := b.snapshots.insert vol (snaps.erase snap) })

def createClone (b : MemBackend) (fresh : VolumeUuid) (parentVol : VolumeUuid)
    (parentSnap : SnapshotUuid) (newName : Text) : Outcome Volume × MemBackend :=
  match b.volumes.lookup parentVol with
  | none => (.error (.volumeNotFound parentVol), b)
  | some parent =>
    match b.snapshots.lookup parentVol with
    | none => (.error (.volumeNotFound parentVol), b)
    | some snaps =>
      match snaps.lookup parentSnap with
      | none => (.error (.snapshotNotFound parentVol parentSnap), b)
      | some snap =>
        if newName ∈ b.names then (.error (.volumeExists newName), b)
        else
          let vol := newVolume fresh newName parent.sizeBytes (some ⟨parent.name, snap.name⟩)
          (.ok vol, b.addVolume vol)

section

variable (debug : Text → String)

/-- A missing volume is reported before the body is looked at. -/
def patchVolume (b : MemBackend) (uuid : VolumeUuid) (patch : VolumePatch) :
    Outcome Volume × MemBackend :=
  if uuid ∉ b.volumes then (.error (.volumeNotFound uuid), b)
  else
    match patch.junctionPath.filter (·.head? ≠ some '/') with
    | some path =>
      (.error (.invalidArgument ("nas.path must start with '/' (got " ++ debug path ++ ")")), b)
    | none =>
      match b.volumes.lookup uuid with
      | none => (.panicked "existence checked immediately above", b)
      | some vol =>
        let vol := { vol with sizeBytes := patch.sizeBytes.or vol.sizeBytes }
        (.ok vol, { b with volumes := b.volumes.insert uuid vol })

def sendStream (b : MemBackend) (vol : VolumeUuid) (snap : Text) (base : Option Text) :
    Outcome Bytes × MemBackend :=
  match b.volumes.lookup vol with
  | none => (.error (.volumeNotFound vol), b)
  | some volume =>
    match b.snapshots.lookup vol with
    | none => (.error (.volumeNotFound vol), b)
    | some snaps =>
      if snaps.hasNamed snap = false then
        (.error (.invalidArgument
          ("snapshot " ++ debug snap ++ " does not exist on the source volume")), b)
      else
        match base.filter fun name => !snaps.hasNamed name with
        | some name =>
          (.error (.invalidArgument
            ("base snapshot " ++ debug name ++ " does not exist on the source volume")), b)
        | none => (.ok (utf8 (encodeReplStream volume.name volume.sizeBytes snap base)), b)

/-- The volume that a stream is applied to: found by name, or made for a full stream. -/
def destination (b : MemBackend) (fresh : VolumeUuid) (dest : Text) (parsed : MemReplStream) :
    Outcome VolumeUuid × MemBackend :=
  match b.volumeNamed dest, parsed.base with
  | some vol, none => (.ok vol.uuid, b)
  | some vol, some base =>
    match b.snapshots.lookup vol.uuid with
    | none => (.panicked "live volume has a snapshot map", b)
    | some snaps =>
      if snaps.hasNamed base then (.ok vol.uuid, b)
      else
        (.error (.invalidArgument
          ("destination " ++ debug dest ++ " is missing base snapshot " ++ debug base)), b)
  | none, some _ =>
    (.error (.invalidArgument
      ("incremental stream for " ++ debug dest ++ ", but the destination volume does not exist")), b)
  | none, none =>
    (.ok fresh, b.addVolume (newVolume fresh dest parsed.sizeBytes none))

/-- Apply the replicated snapshot; a name that is there already stays as it is. -/
def applySnapshot (b : MemBackend) (fresh : SnapshotUuid) (vol : VolumeUuid) (name : Text) :
    Outcome Unit × MemBackend :=
  match b.snapshots.lookup vol with
  | none => (.panicked "destination volume has a snapshot map", b)
  | some snaps =>
    if snaps.hasNamed name then (.ok (), b)
    else (.ok (), { b with snapshots := b.snapshots.insert vol (snaps.add fresh name) })

/-- Reading the stream can fail; what was read is the number of bytes applied. -/
def receiveStream (b : MemBackend) (fresh : VolumeUuid) (freshSnap : SnapshotUuid) (dest : Text)
    (stream : Except String Bytes) : Outcome Nat × MemBackend :=
  match stream with
  | .error e => (.error (.internal e), b)
  | .ok bytes =>
    match ofUtf8 bytes with
    | none => (.error (.internal "stream did not contain valid UTF-8"), b)
    | some raw =>
      match decodeReplStream debug raw with
      | .error e => (.error e, b)
      | .ok parsed =>
        match b.destination debug fresh dest parsed with
        | (.ok vol, b') =>
          let applied := b'.applySnapshot freshSnap vol parsed.snapshot
          (applied.1.map fun _ => bytes.length, applied.2)
        | (.error e, b') => (.error e, b')
        | (.panicked message, b') => (.panicked message, b')

end

end MemBackend

/-! ## Sequences of operations -/

/-- An operation with its arguments and the uuids it draws. -/
inductive MemOp
  | createVolume (fresh : VolumeUuid) (spec : VolumeSpec)
  | deleteVolume (uuid : VolumeUuid)
  | patchVolume (uuid : VolumeUuid) (patch : VolumePatch)
  | createSnapshot (fresh : SnapshotUuid) (vol : VolumeUuid) (name : Text)
  | deleteSnapshot (vol : VolumeUuid) (snap : SnapshotUuid)
  | createClone (fresh : VolumeUuid) (parentVol : VolumeUuid) (parentSnap : SnapshotUuid)
      (newName : Text)
  | sendStream (vol : VolumeUuid) (snap : Text) (base : Option Text)
  | receiveStream (fresh : VolumeUuid) (freshSnap : SnapshotUuid) (dest : Text)
      (stream : Except String Bytes)

inductive MemReply
  | done
  | volume (vol : Volume)
  | snapshot (snap : Snapshot)
  | stream (bytes : Bytes)
  | applied (bytes : Nat)
deriving DecidableEq

def MemBackend.exec (debug : Text → String) (b : MemBackend) : MemOp → Outcome MemReply × MemBackend
  | .createVolume fresh spec => (b.createVolume fresh spec).map (.map .volume) id
  | .deleteVolume uuid => (b.deleteVolume uuid).map (.map fun _ => .done) id
  | .patchVolume uuid patch => (b.patchVolume debug uuid patch).map (.map .volume) id
  | .createSnapshot fresh vol name => (b.createSnapshot fresh vol name).map (.map .snapshot) id
  | .deleteSnapshot vol snap => (b.deleteSnapshot vol snap).map (.map fun _ => .done) id
  | .createClone fresh parentVol parentSnap newName =>
    (b.createClone fresh parentVol parentSnap newName).map (.map .volume) id
  | .sendStream vol snap base => (b.sendStream debug vol snap base).map (.map .stream) id
  | .receiveStream fresh freshSnap dest stream =>
    (b.receiveStream debug fresh freshSnap dest stream).map (.map .applied) id

/-- The volume uuid that an operation draws is not in use. -/
def MemOp.Fresh (b : MemBackend) : MemOp → Prop
  | .createVolume fresh _ => fresh ∉ b.volumes
  | .createClone fresh .. => fresh ∉ b.volumes
  | .receiveStream fresh .. => fresh ∉ b.volumes
  | _ => True

instance (b : MemBackend) (op : MemOp) : Decidable (op.Fresh b) := by
  cases op <;> unfold MemOp.Fresh <;> infer_instance

end NessieStore
