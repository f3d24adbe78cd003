import NessieStore.Core.Cas
import NessieStore.Lib.Pool
import NessieStore.Volume.MemBackend

/-!
# The ZFS backend, step by step

`ZfsBackend` (`nessie-backend-zfs`, `zfs.rs`) keeps volumes as datasets of one pool, which knows them
by name, and a registry of the uuids it gave them. The registry has a lock; a `zfs` command has the
pool to itself; nothing holds both. So an operation is cut into its registry sections and its
commands, and any other operation may come between two of them. The last section of an operation is
its return.

A command acts on the pool at once or leaves it alone. It refuses to create what exists, and it may
fail for reasons that the pool here does not know (a missing parent, a mounted dataset, a program that
cannot be started): that is part of a step's label. Datasets go by the name behind the pool's. A uuid
is drawn from a supply that does not repeat itself.

`list_snapshots` and `get_snapshot` register snapshots only, `get_volume`, `patch_volume` and
`access_handle` register nothing, and the exports are files of their own: they are left out, and so is
the replication of `receive_stream`.
-/

set_option autoImplicit false

namespace NessieStore

open Lib

/-- The settings that the modelled operations read. -/
structure ZfsConfig where
  pool : Text
  srvRoot : Text
  maxDestroyRetries : Nat

def ZfsConfig.full (cfg : ZfsConfig) (name : Text) : Text := cfg.pool ++ '/' :: name

/-! ## The pool -/

/-- Datasets, and snapshots by dataset and name. -/
structure ZfsPool where
  datasets : Finset Text
  snapshots : Finset (Text × Text)
deriving DecidableEq

inductive ZfsCommand
  | create (name : Text) (sizeBytes : Option UInt64)
  | clone (dataset snapshot name : Text)
  /-- `zfs destroy` of a dataset with all that is below it. -/
  | destroy (name : Text)
  | snapshot (dataset name : Text)
  | destroySnapshot (dataset name : Text)
  | list
deriving DecidableEq

namespace ZfsCommand

variable (cfg : ZfsConfig)

def mountpoint (name : Text) : Text := "mountpoint=".toList ++ cfg.srvRoot ++ '/' :: name

def argv : ZfsCommand → List Text
  | .create name sizeBytes =>
    ["zfs".toList, "create".toList, "-o".toList, mountpoint cfg name] ++
      (match sizeBytes with
        | none => []
        | some b => ["-o".toList, "quota=".toList ++ (toString b.toNat).toList]) ++
      [cfg.full name]
  | .clone dataset snap name =>
    ["zfs".toList, "clone".toList, "-o".toList, mountpoint cfg name,
      cfg.full dataset ++ '@' :: snap, cfg.full name]
  | .destroy name => ["zfs".toList, "destroy".toList, "-r".toList, "-f".toList, cfg.full name]
  | .snapshot dataset name => ["zfs".toList, "snapshot".toList, cfg.full dataset ++ '@' :: name]
  | .destroySnapshot dataset name =>
    ["zfs".toList, "destroy".toList, cfg.full dataset ++ '@' :: name]
  | .list =>
    ["zfs".toList, "list".toList, "-H".toList, "-r".toList, "-o".toList,
      "name,mountpoint,used,avail,origin".toList, "-t".toList, "filesystem".toList, cfg.pool]

/-- `argv.join(" ")`. -/
def text (command : ZfsCommand) : Text := [' '].intercalate (command.argv cfg)

end ZfsCommand

inductive ZfsError
  | commandFailed (command stderr : Text)
  | backend (e : BackendError)
deriving DecidableEq

/-- What keeps a command from doing its work. -/
inductive CommandFault
  | exit (stderr : Text)
  /-- The program could not be run. -/
  | spawn (message : Text)
deriving DecidableEq

/-- What the runner comes back with. -/
inductive CommandOutput
  | success (pool : ZfsPool)
  | failure (stderr : Text)
  | notRun (message : Text)

/-- The dataset or one below it. -/
def below (name dataset : Text) : Bool := dataset = name || (name ++ ['/']).isPrefixOf dataset

namespace ZfsPool

/-- What a command does to the pool, or what it says instead. -/
def apply (p : ZfsPool) : ZfsCommand → CommandOutput
  | .create name _ =>
    if name ∈ p.datasets then .failure "dataset already exists".toList
    else .success { p with datasets := insert name p.datasets }
  | .clone dataset snapshot name =>
    if (dataset, snapshot) ∉ p.snapshots then .failure "dataset does not exist".toList
    else if name ∈ p.datasets then .failure "dataset already exists".toList
    else .success { p with datasets := insert name p.datasets }
  | .destroy name =>
    if name ∉ p.datasets then .failure "dataset does not exist".toList
    else .success
      ⟨p.datasets.filter fun d => !below name d, p.snapshots.filter fun s => !below name s.1⟩
  | .snapshot dataset name =>
    if dataset ∉ p.datasets then .failure "dataset does not exist".toList
    else if (dataset, name) ∈ p.snapshots then .failure "dataset already exists".toList
    else .success { p with snapshots := insert (dataset, name) p.snapshots }
  | .destroySnapshot dataset name =>
    if (dataset, name) ∉ p.snapshots then
      .failure "could not find any snapshots to destroy; check snapshot names.".toList
    else .success { p with snapshots := p.snapshots.erase (dataset, name) }
  | .list => .success p

/-- `runner.run`. -/
def run (p : ZfsPool) (fault : Option CommandFault) (command : ZfsCommand) : CommandOutput :=
  match fault with
  | some (.spawn message) => .notRun message
  | some (.exit stderr) => .failure stderr
  | none => p.apply command

end ZfsPool

/-! ## The registry -/

structure Registry where
  volByUuid : Map VolumeUuid Text
  volByName : Map Text VolumeUuid
  snapByUuid : Map SnapshotUuid (VolumeUuid × Text)

namespace Registry

def empty : Registry := ⟨∅, ∅, ∅⟩

/-- The uuid of `name`, which is `fresh` if it had none. -/
def registerVol (r : Registry) (fresh : VolumeUuid) (name : Text) : VolumeUuid × Registry :=
  match r.volByName.lookup name with
  | some u => (u, r)
  | none => (fresh, { r with
      volByUuid := r.volByUuid.insert fresh name
      volByName := r.volByName.insert name fresh })

def removeVol (r : Registry) (u : VolumeUuid) : Registry :=
  match r.volByUuid.lookup u with
  | none => r
  | some name =>
    { volByUuid := r.volByUuid.erase u
      volByName := r.volByName.erase name
      snapByUuid := r.snapByUuid.retain fun _ s => s.1 ≠ u }

/-- The snapshot of that volume and name; of several the one with the least uuid, where the source
takes the first that its table lists. -/
def snapNamed (r : Registry) (vol : VolumeUuid) (name : Text) : Option SnapshotUuid :=
  let named := r.snapByUuid.keys.filter fun u => r.snapByUuid.lookup u = some (vol, name)
  match (named.image SnapshotUuid.id).min with
  | none => none
  | some id => some ⟨id⟩

def registerSnap (r : Registry) (fresh : SnapshotUuid) (vol : VolumeUuid) (name : Text) :
    SnapshotUuid × Registry :=
  match r.snapNamed vol name with
  | some u => (u, r)
  | none => (fresh, { r with snapByUuid := r.snapByUuid.insert fresh (vol, name) })

def removeSnap (r : Registry) (u : SnapshotUuid) : Registry :=
  { r with snapByUuid := r.snapByUuid.erase u }

end Registry

/-! ## The operations -/

/-- What the operations share: the pool, the registry, and the next uuid. -/
structure ZfsShared where
  pool : ZfsPool
  reg : Registry
  supply : Nat

namespace ZfsShared

/-- `register_vol` with a uuid from the supply. -/
def register (s : ZfsShared) (name : Text) : VolumeUuid × ZfsShared :=
  ((s.reg.registerVol ⟨s.supply⟩ name).1,
    { s with reg := (s.reg.registerVol ⟨s.supply⟩ name).2, supply := s.supply + 1 })

/-- The registrations of `list_volumes`, in the order of the rows. -/
def registerRows (s : ZfsShared) : List (Text × Option CloneOrigin) → List Volume × ZfsShared
  | [] => ([], s)
  | (name, origin) :: rows =>
    let (u, s) := s.register name
    let (vols, s) := s.registerRows rows
    (newVolume u name none origin :: vols, s)

end ZfsShared

/-- `parse_origin`. -/
def parseOrigin (origin pool : Text) : Option CloneOrigin :=
  if origin = [] ∨ origin = "-".toList then none
  else
    (rsplitOnce ['@'] origin).map fun (dataset, snap) =>
      let short :=
        if (pool ++ ['/']).isPrefixOf dataset then dataset.drop (pool.length + 1) else dataset
      ⟨(rsplitOnce ['/'] short).elim short Prod.snd, snap⟩

/-- The name and the origin column of one row of `zfs list`; the pool's own row is skipped. -/
def readRow (pool : Text) (row : Text × Text) : Option (Text × Option CloneOrigin) :=
  if row.1 = pool then none
  else
    some (if (pool ++ ['/']).isPrefixOf row.1 then row.1.drop (pool.length + 1) else row.1,
      parseOrigin row.2 pool)

inductive ZfsAnswer
  | done
  | volume (v : Volume)
  | volumes (vs : List Volume)
  | snapshot (s : Snapshot)
deriving DecidableEq

/-- An operation, by what it does next. -/
inductive ZfsThread
  | createVolume (spec : VolumeSpec)
  /-- The dataset exists and is not registered yet. -/
  | volumeCreated (spec : VolumeSpec)
  | createClone (vol : VolumeUuid) (snap : SnapshotUuid) (name : Text)
  | cloneNamed (vol : VolumeUuid) (snap : SnapshotUuid) (name parent : Text)
  | cloneFound (name parent snapshot : Text)
  | cloneMade (name parent snapshot : Text)
  | deleteVolume (u : VolumeUuid)
  | destroying (u : VolumeUuid) (name : Text) (attempt : Nat)
  /-- The dataset is gone and its uuid is not. -/
  | destroyed (u : VolumeUuid)
  | createSnapshot (vol : VolumeUuid) (name : Text)
  | snapshotting (vol : VolumeUuid) (name dataset : Text)
  | snapshotted (vol : VolumeUuid) (name : Text)
  | deleteSnapshot (vol : VolumeUuid) (snap : SnapshotUuid)
  | snapshotFound (vol : VolumeUuid) (snap : SnapshotUuid) (name : Text)
  | snapshotNamed (snap : SnapshotUuid) (name dataset : Text)
  | snapshotDestroyed (snap : SnapshotUuid)
  | listVolumes
  | listed (rows : List (Text × Text))
  | returned (out : Except ZfsError ZfsAnswer)
deriving DecidableEq

inductive ZfsEvent
  /-- A registry section. -/
  | lock
  | command (fault : Option CommandFault)
  /-- `zfs list` printed these rows: a dataset's full name and its origin. -/
  | printed (rows : List (Text × Text))
deriving DecidableEq

namespace ZfsThread

variable (cfg : ZfsConfig)

/-- `run_checked`, and what follows if the command succeeds. -/
def exec (s : ZfsShared) (fault : Option CommandFault) (command : ZfsCommand) (next : ZfsThread) :
    ZfsShared × ZfsThread :=
  match s.pool.run fault command with
  | .success pool => ({ s with pool }, next)
  | .failure stderr | .notRun stderr =>
    (s, .returned (.error (.commandFailed (command.text cfg) stderr)))

/-- `destroy_with_retry`, one attempt of it: only a command that ran is tried again. -/
def destroy (s : ZfsShared) (fault : Option CommandFault) (u : VolumeUuid) (name : Text)
    (attempt : Nat) : ZfsShared × ZfsThread :=
  match s.pool.run fault (.destroy name) with
  | .success pool => ({ s with pool }, .destroyed u)
  | .failure stderr =>
    if "busy".toList <:+: stderr ∧ attempt < cfg.maxDestroyRetries then
      (s, .destroying u name (attempt + 1))
    else (s, .returned (.error (.commandFailed ((ZfsCommand.destroy name).text cfg) stderr)))
  | .notRun message =>
    (s, .returned (.error (.commandFailed ((ZfsCommand.destroy name).text cfg) message)))

/-- `vol_name`, or the error of an unknown volume. -/
def withName (s : ZfsShared) (u : VolumeUuid) (next : Text → ZfsThread) : ZfsShared × ZfsThread :=
  match s.reg.volByUuid.lookup u with
  | some name => (s, next name)
  | none => (s, .returned (.error (.backend (.volumeNotFound u))))

/-- `snap`, which must be one of the volume's. -/
def withSnap (s : ZfsShared) (vol : VolumeUuid) (snap : SnapshotUuid) (next : Text → ZfsThread) :
    ZfsShared × ZfsThread :=
  match s.reg.snapByUuid.lookup snap with
  | some (vol', name) =>
    if vol' = vol then (s, next name)
    else (s, .returned (.error (.backend (.snapshotNotFound vol snap))))
  | none => (s, .returned (.error (.backend (.snapshotNotFound vol snap))))

def step (s : ZfsShared) : ZfsThread → ZfsEvent → Option (ZfsShared × ZfsThread)
  | .createVolume spec, .command fault =>
    some (exec cfg s fault (.create spec.name spec.sizeBytes) (.volumeCreated spec))
  | .volumeCreated spec, .lock =>
    some ((s.register spec.name).2,
      .returned (.ok (.volume (newVolume (s.register spec.name).1 spec.name spec.sizeBytes none))))
  | .createClone vol snap name, .lock => some (withName s vol (.cloneNamed vol snap name))
  | .cloneNamed vol snap name parent, .lock => some (withSnap s vol snap (.cloneFound name parent))
  | .cloneFound name parent snapshot, .command fault =>
    some (exec cfg s fault (.clone parent snapshot name) (.cloneMade name parent snapshot))
  | .cloneMade name parent snapshot, .lock =>
    some ((s.register name).2,
      .returned (.ok (.volume (newVolume (s.register name).1 name none (some ⟨parent, snapshot⟩)))))
  | .deleteVolume u, .lock => some (withName s u (.destroying u · 0))
  | .destroying u name attempt, .command fault => some (destroy cfg s fault u name attempt)
  | .destroyed u, .lock => some ({ s with reg := s.reg.removeVol u }, .returned (.ok .done))
  | .createSnapshot vol name, .lock => some (withName s vol (.snapshotting vol name))
  | .snapshotting vol name dataset, .command fault =>
    some (exec cfg s fault (.snapshot dataset name) (.snapshotted vol name))
  | .snapshotted vol name, .lock =>
    let (u, reg) := s.reg.registerSnap ⟨s.supply⟩ vol name
    some ({ s with reg, supply := s.supply + 1 }, .returned (.ok (.snapshot ⟨u, name, none, 0⟩)))
  | .deleteSnapshot vol snap, .lock => some (withSnap s vol snap (.snapshotFound vol snap))
  | .snapshotFound vol snap name, .lock => some (withName s vol (.snapshotNamed snap name))
  | .snapshotNamed snap name dataset, .command fault =>
    some (exec cfg s fault (.destroySnapshot dataset name) (.snapshotDestroyed snap))
  | .snapshotDestroyed snap, .lock =>
    some ({ s with reg := s.reg.removeSnap snap }, .returned (.ok .done))
  | .listVolumes, .command (some fault) => some (exec cfg s (some fault) .list .listVolumes)
  | .listVolumes, .printed rows =>
    if (rows.map Prod.fst).Nodup ∧ (rows.map Prod.fst).toFinset =
        insert cfg.pool (s.pool.datasets.image cfg.full) then
      some (s, .listed rows)
    else none
  | .listed rows, .lock =>
    some ((s.registerRows (rows.filterMap (readRow cfg.pool))).2,
      .returned (.ok (.volumes (s.registerRows (rows.filterMap (readRow cfg.pool))).1)))
  | _, _ => none

end ZfsThread

/-! ## Any number of operations -/

inductive ZfsRequest
  | createVolume (spec : VolumeSpec)
  | createClone (vol : VolumeUuid) (snap : SnapshotUuid) (name : Text)
  | deleteVolume (u : VolumeUuid)
  | createSnapshot (vol : VolumeUuid) (name : Text)
  | deleteSnapshot (vol : VolumeUuid) (snap : SnapshotUuid)
  | listVolumes
deriving DecidableEq

def ZfsRequest.thread : ZfsRequest → ZfsThread
  | .createVolume spec => .createVolume spec
  | .createClone vol snap name => .createClone vol snap name
  | .deleteVolume u => .deleteVolume u
  | .createSnapshot vol name => .createSnapshot vol name
  | .deleteSnapshot vol snap => .deleteSnapshot vol snap
  | .listVolumes => .listVolumes

structure Zfs where
  shared : ZfsShared
  threads : List ZfsThread

inductive ZfsAct
  | call (r : ZfsRequest)
  | step (i : Nat) (ev : ZfsEvent)
deriving DecidableEq

namespace Zfs

/-- A backend over a pool, which may hold datasets already. -/
def new (pool : ZfsPool) : Zfs := ⟨⟨pool, .empty, 0⟩, []⟩

def step (cfg : ZfsConfig) (x : Zfs) : ZfsAct → Option Zfs
  | .call r => some { x with threads := x.threads ++ [r.thread] }
  | .step i ev =>
    (stepAt (fun s t => ZfsThread.step cfg s t ev) x.shared x.threads i).map fun r => ⟨r.1, r.2⟩

end Zfs

end NessieStore
