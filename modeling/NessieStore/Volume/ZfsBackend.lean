import NessieStore.Lib.Program
import NessieStore.Volume.Zpool

/-!
# The ZFS backend, call by call

The operations of `ZfsBackend` (`nessie-backend-zfs`, `zfs.rs`) as programs over the pool, the files
of the machine and the registry. A call has the machine to itself; what it shares with others
between two of its steps is `Volume.Zfs`. A program that fails keeps what it did: each `?` of the
source is an exit with the state of that moment.

The environment of a call says which of its commands fail, and at which attempt, and how its file
operations end. A command that fails leaves the pool alone. What the source calls best-effort is run
with its outcome thrown away: `exportfs`, `chown`, `chmod`, and the changes of export files. The world
remembers which files the last call wrote or removed.

`send_stream` changes nothing and is left out, and so is the time that `destroy_with_retry` waits.
-/

set_option autoImplicit false

namespace NessieStore

open Lib

/-- `EXPORT_OPTS`. -/
def exportOpts : Text := "rw,sync,no_subtree_check,no_root_squash,crossmnt".toList

/-- Letters, digits, `_`, `-` and `.` stay, and leading dots go. -/
def safeFilenameComponent (name : Text) : Text :=
  (name.filter fun c => c.isAlphanum || c = '_' || c = '-' || c = '.').dropWhile (· = '.')

/-- `PathBuf::join`. -/
def joinPath (dir file : Text) : Text :=
  if file.head? = some '/' then file
  else if dir = [] ∨ dir.getLast? = some '/' then dir ++ file
  else dir ++ '/' :: file

namespace ZfsSettings

variable (cfg : ZfsSettings)

def exportsFileName (safe : Text) : Text := "trident_".toList ++ safe ++ ".exports".toList

def exportsFile (name : Text) : Option Text :=
  let safe := safeFilenameComponent name
  if safe = [] then none else some (joinPath cfg.exportsDir (exportsFileName safe))

/-- One line for each client. -/
def exportContent (mountpoint : Text) : Text :=
  cfg.nfsClients.flatMap fun client =>
    mountpoint ++ ' ' :: client ++ '(' :: exportOpts ++ ")\n".toList

end ZfsSettings

/-! ## The world -/

inductive FileEvent
  | wrote (path : Text)
  | removed (path : Text)
deriving DecidableEq

def FileEvent.path : FileEvent → Text
  | .wrote path | .removed path => path

structure ZfsWorld where
  pool : Zpool
  /-- The files of the machine, by path. -/
  files : Map Text Text
  reg : Registry
  /-- The next uuid. -/
  supply : Nat
  /-- What the last call did to files. -/
  touched : List FileEvent

/-- A backend that has just been made. -/
def ZfsWorld.new (pool : Zpool) (files : Map Text Text) : ZfsWorld := ⟨pool, files, .empty, 0, []⟩

/-- The world at the start of a call, which has touched no file yet. -/
def ZfsWorld.start (w : ZfsWorld) : ZfsWorld := { w with touched := [] }

abbrev ZfsProgram := EStateM ZfsError ZfsWorld

namespace ZfsBackend

/-! ## The registry -/

def volName (u : VolumeUuid) : ZfsProgram Text := fun w =>
  match w.reg.volByUuid.lookup u with
  | some name => .ok name w
  | none => .error (.backend (.volumeNotFound u)) w

/-- `snap`, which must be one of the volume's. -/
def snapName (vol : VolumeUuid) (snap : SnapshotUuid) : ZfsProgram Text := fun w =>
  match w.reg.snapByUuid.lookup snap with
  | some (vol', name) =>
    if vol' = vol then .ok name w else .error (.backend (.snapshotNotFound vol snap)) w
  | none => .error (.backend (.snapshotNotFound vol snap)) w

def registerVol (name : Text) : ZfsProgram VolumeUuid := fun w =>
  .ok (w.reg.registerVol ⟨w.supply⟩ name).1
    { w with reg := (w.reg.registerVol ⟨w.supply⟩ name).2, supply := w.supply + 1 }

def registerSnap (vol : VolumeUuid) (name : Text) : ZfsProgram SnapshotUuid := fun w =>
  .ok (w.reg.registerSnap ⟨w.supply⟩ vol name).1
    { w with reg := (w.reg.registerSnap ⟨w.supply⟩ vol name).2, supply := w.supply + 1 }

def removeVol (u : VolumeUuid) : ZfsProgram Unit :=
  modify fun w => { w with reg := w.reg.removeVol u }

def removeSnap (u : SnapshotUuid) : ZfsProgram Unit :=
  modify fun w => { w with reg := w.reg.removeSnap u }

section Calls

variable (debug : Text → String) (cfg : ZfsSettings) (env : ZfsEnv)

/-! ## Commands and files -/

/-- `runner.run`: what the command printed, or what it complained of. -/
def runner (command : HostCommand) (attempt : Nat) : ZfsProgram (Except Text Text) := fun w =>
  match env.fault command attempt with
  | some (.spawn message) => .error (.commandFailed (command.text cfg.toZfsConfig) message) w
  | some (.exit stderr) => .ok (.error stderr) w
  | none =>
    match w.pool.apply cfg env command with
    | .error stderr => .ok (.error stderr) w
    | .ok (pool, stdout) => .ok (.ok stdout) { w with pool }

def runChecked (command : HostCommand) : ZfsProgram Text := do
  match ← runner cfg env command 0 with
  | .ok stdout => pure stdout
  | .error stderr => throw (.commandFailed (command.text cfg.toZfsConfig) stderr)

/-- A command whose outcome is thrown away. -/
def bestEffort (command : HostCommand) : ZfsProgram Unit := do
  let _ ← attempt (runner cfg env command 0)

/-- `std::fs::write`, and whether it succeeded. -/
def writeFile (path content : Text) : ZfsProgram Bool := fun w =>
  match env.write.left content with
  | none => .ok false w
  | some left =>
    .ok (env.write = .done)
      { w with files := w.files.insert path left, touched := w.touched ++ [.wrote path] }

/-- `std::fs::remove_file`. -/
def removeFile (path : Text) : ZfsProgram Unit :=
  modify fun w =>
    if env.unlink ∧ (w.files.lookup path).isSome then
      { w with files := w.files.erase path, touched := w.touched ++ [.removed path] }
    else w

/-! ## The helpers -/

/-- Whether the mountpoint was set. -/
def setMountpoint (name target : Text) : ZfsProgram Bool := do
  let current ← runChecked cfg env (.getMountpoint name)
  if trim current = target then return false
  let _ ← runChecked cfg env (.setMountpoint name target)
  return true

def nfsExport (name mountpoint : Text) : ZfsProgram Unit := do
  if cfg.manageKernelExports = false then return
  if cfg.nfsClients = [] then return
  match cfg.exportsFile name with
  | none => return
  | some path =>
    if env.makeDir then
      if ← writeFile env path (cfg.exportContent mountpoint) then bestEffort cfg env .exportfs

def nfsUnexport (name : Text) : ZfsProgram Unit := do
  if cfg.manageKernelExports = false then return
  match cfg.exportsFile name with
  | none => pure ()
  | some path => removeFile env path
  bestEffort cfg env .exportfs

def setPermissions (mountpoint : Text) : ZfsProgram Unit := do
  match cfg.datasetOwner with
  | none => pure ()
  | some owner => bestEffort cfg env (.chown owner mountpoint)
  match cfg.datasetMode with
  | none => pure ()
  | some mode => bestEffort cfg env (.chmod mode mountpoint)

/-- The attempts at a destroy from this one on, with `left` of them to follow. -/
def destroyFrom (name : Text) : Nat → Nat → ZfsProgram Unit
  | left, attempt => do
    match ← runner cfg env (.zfs (.destroy name)) attempt with
    | .ok _ => pure ()
    | .error stderr =>
      match left with
      | 0 => throw (.commandFailed ((ZfsCommand.destroy name).text cfg.toZfsConfig) stderr)
      | left + 1 =>
        if "busy".toList <:+: stderr then destroyFrom name left (attempt + 1)
        else throw (.commandFailed ((ZfsCommand.destroy name).text cfg.toZfsConfig) stderr)

def destroyWithRetry (name : Text) : ZfsProgram Unit :=
  destroyFrom cfg env name cfg.maxDestroyRetries 0

/-! ## Volumes -/

def createVolume (spec : VolumeSpec) : ZfsProgram Volume := do
  let _ ← runChecked cfg env (.zfs (.create spec.name spec.sizeBytes))
  let uuid ← registerVol spec.name
  return newVolume uuid spec.name spec.sizeBytes none

def getVolume (u : VolumeUuid) : ZfsProgram Volume := do
  let name ← volName u
  match ← runner cfg env (.listDataset name) 0 with
  | .error _ => throw (.backend (.volumeNotFound u))
  | .ok stdout =>
    let fields := (((lines stdout).head?).getD []).splitOn '\t'
    return newVolume u name none (parseOrigin ((fields[4]?).getD ['-']) cfg.pool)

def deleteVolume (u : VolumeUuid) : ZfsProgram Unit := do
  let name ← volName u
  nfsUnexport cfg env name
  destroyWithRetry cfg env name
  removeVol u

/-- The quota that a patch sets. -/
def patchSize (name : Text) : Option UInt64 → ZfsProgram Unit
  | none => pure ()
  | some size => do
    let _ ← runChecked cfg env (.setQuota name size)

/-- The junction that a patch sets, below the exported tree. -/
def patchJunction (name : Text) : Option Text → ZfsProgram Unit
  | none => pure ()
  | some junction => do
    let target := cfg.srvRoot ++ junction
    let _ ← setMountpoint cfg env name target
    nfsExport cfg env name target
    setPermissions cfg env target

/-- A junction must be absolute. -/
def checkJunction : Option Text → ZfsProgram Unit
  | none => pure ()
  | some junction =>
    if junction.head? = some '/' then pure ()
    else throw (.backend (.invalidArgument
      ("nas.path must start with '/' (got " ++ debug junction ++ ")")))

def patchVolume (u : VolumeUuid) (patch : VolumePatch) : ZfsProgram Volume := do
  let name ← volName u
  checkJunction debug patch.junctionPath
  patchSize cfg env name patch.sizeBytes
  patchJunction cfg env name patch.junctionPath
  getVolume cfg env u

/-- The path of the NFS export. -/
def accessHandle (u : VolumeUuid) : ZfsProgram (Text × Text) := do
  let name ← volName u
  let mount ← runChecked cfg env (.getMountpoint name)
  return (cfg.dataLif, trim mount)

/-- The rows of `list_volumes`: those with too few columns and the pool's own are skipped. -/
def readVolumes : List Text → ZfsProgram (List Volume)
  | [] => return []
  | line :: rest =>
    match line.splitOn '\t' with
    | name :: _ :: _ :: _ :: origin :: _ => do
      match readRow cfg.pool (name, origin) with
      | none => readVolumes rest
      | some (short, clone) => do
        let uuid ← registerVol short
        return newVolume uuid short none clone :: (← readVolumes rest)
    | _ => readVolumes rest

def listVolumes : ZfsProgram (List Volume) := do
  let out ← runChecked cfg env (.zfs .list)
  readVolumes cfg (lines out)

/-! ## Snapshots, clones and streams -/

/-- `DateTime::from_timestamp`, up to the last second that it has. -/
def fromTimestamp (seconds : Nat) : Option Nat :=
  if seconds ≤ 8210266876799 then some seconds else none

/-- `parse::<i64>`, or zero; no row has a time before 1970. -/
def readSeconds (column : Text) : Nat :=
  match parseU64 column with
  | some n => if n.toNat < 2 ^ 63 then n.toNat else 0
  | none => 0

/-- The rows of `list_snapshots`, for a volume. -/
def readSnapshots (vol : VolumeUuid) : List Text → ZfsProgram (List Snapshot)
  | [] => return []
  | line :: rest =>
    match line.splitOn '\t' with
    | full :: creation :: used :: _ :: _ => do
      let name := (rsplitOnce ['@'] full).elim full Prod.snd
      let uuid ← registerSnap vol name
      return ⟨uuid, name, fromTimestamp (readSeconds creation), (parseU64 used).getD 0⟩ ::
        (← readSnapshots vol rest)
    | _ => readSnapshots vol rest

def listSnapshots (vol : VolumeUuid) : ZfsProgram (List Snapshot) := do
  let name ← volName vol
  let out ← runChecked cfg env (.listSnapshots name)
  readSnapshots vol (lines out)

def createSnapshot (vol : VolumeUuid) (name : Text) : ZfsProgram Snapshot := do
  let dataset ← volName vol
  let _ ← runChecked cfg env (.zfs (.snapshot dataset name))
  let uuid ← registerSnap vol name
  return ⟨uuid, name, none, 0⟩

def getSnapshot (vol : VolumeUuid) (snap : SnapshotUuid) : ZfsProgram Snapshot := do
  let name ← snapName vol snap
  match (← listSnapshots cfg env vol).find? (·.name = name) with
  | some s => return s
  | none => throw (.backend (.snapshotNotFound vol snap))

def deleteSnapshot (vol : VolumeUuid) (snap : SnapshotUuid) : ZfsProgram Unit := do
  let name ← snapName vol snap
  let dataset ← volName vol
  let _ ← runChecked cfg env (.zfs (.destroySnapshot dataset name))
  removeSnap snap

def createClone (vol : VolumeUuid) (snap : SnapshotUuid) (name : Text) : ZfsProgram Volume := do
  let parent ← volName vol
  let snapshot ← snapName vol snap
  let _ ← runChecked cfg env (.zfs (.clone parent snapshot name))
  let uuid ← registerVol name
  return newVolume uuid name none (some ⟨parent, snapshot⟩)

def receiveStream (dest : Text) (stream : ZfsStream) : ZfsProgram Unit := do
  let _ ← runChecked cfg env (.receive dest stream)
  let _ ← registerVol dest

end Calls

end ZfsBackend

/-! ## Calls -/

inductive ZfsCall
  | listVolumes
  | createVolume (spec : VolumeSpec)
  | getVolume (u : VolumeUuid)
  | deleteVolume (u : VolumeUuid)
  | patchVolume (u : VolumeUuid) (patch : VolumePatch)
  | accessHandle (u : VolumeUuid)
  | listSnapshots (vol : VolumeUuid)
  | createSnapshot (vol : VolumeUuid) (name : Text)
  | getSnapshot (vol : VolumeUuid) (snap : SnapshotUuid)
  | deleteSnapshot (vol : VolumeUuid) (snap : SnapshotUuid)
  | createClone (vol : VolumeUuid) (snap : SnapshotUuid) (name : Text)
  | receiveStream (dest : Text) (stream : ZfsStream)
deriving DecidableEq

namespace ZfsBackend

variable (debug : Text → String) (cfg : ZfsSettings)

/-- A call for its effect. -/
def exec (env : ZfsEnv) : ZfsCall → ZfsProgram Unit
  | .listVolumes => discard (listVolumes cfg env)
  | .createVolume spec => discard (createVolume cfg env spec)
  | .getVolume u => discard (getVolume cfg env u)
  | .deleteVolume u => deleteVolume cfg env u
  | .patchVolume u patch => discard (patchVolume debug cfg env u patch)
  | .accessHandle u => discard (accessHandle cfg env u)
  | .listSnapshots vol => discard (listSnapshots cfg env vol)
  | .createSnapshot vol name => discard (createSnapshot cfg env vol name)
  | .getSnapshot vol snap => discard (getSnapshot cfg env vol snap)
  | .deleteSnapshot vol snap => deleteSnapshot cfg env vol snap
  | .createClone vol snap name => discard (createClone cfg env vol snap name)
  | .receiveStream dest stream => receiveStream cfg env dest stream

/-- A call and what becomes of it. -/
structure Act where
  call : ZfsCall
  env : ZfsEnv

/-- One call after another; a call that fails leaves its world behind as well. -/
def step (w : ZfsWorld) (a : Act) : Option ZfsWorld :=
  if a.env.Prints w.pool then some (final (exec debug cfg a.env a.call) w.start) else none

end ZfsBackend

end NessieStore
