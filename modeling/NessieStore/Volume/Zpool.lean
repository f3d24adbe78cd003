import NessieStore.Core.Text
import NessieStore.Volume.Zfs

/-!
# A pool with its properties, and the commands that the ZFS backend runs

`Volume.Zfs` knows a pool by the names in it, which is what the identities of volumes rest on. Here
the pool has what the commands of `ZfsBackend` (`nessie-backend-zfs`, `zfs.rs`) read and set: a
dataset's quota, mountpoint and origin, and a snapshot's time of creation. A command is refused or
acts at once, and what it prints is text, in the columns that its `-o` asks for.

A dataset or snapshot is created under a name that ZFS allows and no other, so the pool is keyed by
such names. The rules of the pool: a dataset has its parent, `destroy -r` takes all that is below
and is refused while a dataset elsewhere is a clone of a snapshot in it, a snapshot with clones
stays, and a received stream brings a snapshot, to a dataset without any or behind its base. Sizes,
times and the order of rows come from outside. A destination of `zfs receive` that names a snapshot
is left out.
-/

set_option autoImplicit false

namespace NessieStore

open Lib

/-! ## Names -/

/-- A character of a name: a letter, a digit, or one of five more. -/
def isZfsChar (c : Char) : Bool := c.isAlphanum || "_-.: ".toList.contains c

/-- Components between slashes, none of them empty. -/
def isDatasetName (name : Text) : Bool :=
  (name.splitOn '/').all fun part => !part.isEmpty && part.all isZfsChar

def isSnapshotName (name : Text) : Bool := !name.isEmpty && name.all isZfsChar

/-- What stands behind the pool's name. -/
abbrev DatasetName := { name : Text // isDatasetName name = true }

abbrev SnapshotName := { name : Text // isSnapshotName name = true }

/-- A text, if it is a name. -/
def readName (valid : Text → Bool) (name : Text) : Option { name : Text // valid name = true } :=
  if h : valid name = true then some ⟨name, h⟩ else none

def DatasetName.read (name : Text) : Option DatasetName := readName isDatasetName name

def SnapshotName.read (name : Text) : Option SnapshotName := readName isSnapshotName name

theorem readName_eq_some {valid : Text → Bool} {name : Text}
    {n : { name : Text // valid name = true }} :
    readName valid name = some n ↔ n.val = name := by
  unfold readName
  split
  · next h =>
    rw [Option.some.injEq]
    exact ⟨fun heq => heq ▸ rfl, fun heq => Subtype.ext heq.symm⟩
  · next h =>
    refine iff_of_false (by simp) ?_
    rintro rfl
    exact h n.2

/-- The settings that the operations read. -/
structure ZfsSettings extends ZfsConfig where
  dataLif : Text
  nfsClients : List Text
  datasetOwner : Option Text
  datasetMode : Option Text
  exportsDir : Text
  manageKernelExports : Bool
  /-- It is the name of a pool, or of a dataset in one. -/
  named : pool.all (fun c => isZfsChar c || c = '/') = true

/-! ## The pool -/

structure Dataset where
  /-- Zero is none. -/
  quota : UInt64
  mountpoint : Text
  origin : Option (DatasetName × SnapshotName)
deriving DecidableEq

/-- Datasets with their properties, and snapshots with the second they were made in. -/
structure Zpool where
  datasets : Map DatasetName Dataset
  snapshots : Map (DatasetName × SnapshotName) UInt64

/-- What a `zfs send` was asked for, and from which snapshot on. -/
structure ZfsStream where
  snapshot : SnapshotName
  base : Option SnapshotName
deriving DecidableEq

namespace Zpool

def find (p : Zpool) (name : Text) : Option (DatasetName × Dataset) :=
  (DatasetName.read name).bind fun n => (p.datasets.lookup n).map fun d => (n, d)

def findSnapshot (p : Zpool) (dataset snapshot : Text) : Option (DatasetName × SnapshotName) :=
  (DatasetName.read dataset).bind fun n => (SnapshotName.read snapshot).bind fun s =>
    if (p.snapshots.lookup (n, s)).isSome then some (n, s) else none

theorem find_eq_some {p : Zpool} {name : Text} {n : DatasetName} {d : Dataset} :
    p.find name = some (n, d) ↔ n.val = name ∧ p.datasets.lookup n = some d := by
  simp only [find, DatasetName.read, Option.bind_eq_some_iff, readName_eq_some,
    Option.map_eq_some_iff, Prod.mk.injEq]
  constructor
  · rintro ⟨n, hname, d, hd, rfl, rfl⟩
    exact ⟨hname, hd⟩
  · rintro ⟨hname, hd⟩
    exact ⟨n, hname, d, hd, rfl, rfl⟩

theorem find_isSome {p : Zpool} {name : Text} :
    (p.find name).isSome ↔ ∃ n : DatasetName, n.val = name ∧ (p.datasets.lookup n).isSome := by
  simp only [Option.isSome_iff_exists, Prod.exists, find_eq_some]
  constructor
  · rintro ⟨n, d, hname, hd⟩
    exact ⟨n, hname, d, hd⟩
  · rintro ⟨n, hname, d, hd⟩
    exact ⟨n, d, hname, hd⟩

theorem findSnapshot_eq_some {p : Zpool} {dataset snapshot : Text} {k : DatasetName × SnapshotName} :
    p.findSnapshot dataset snapshot = some k ↔
      k.1.val = dataset ∧ k.2.val = snapshot ∧ (p.snapshots.lookup k).isSome := by
  simp only [findSnapshot, DatasetName.read, SnapshotName.read, Option.bind_eq_some_iff,
    readName_eq_some, Option.ite_none_right_eq_some, Option.some.injEq]
  constructor
  · rintro ⟨n, hn, s, hs, hk, rfl⟩
    exact ⟨hn, hs, hk⟩
  · rintro ⟨hn, hs, hk⟩
    exact ⟨k.1, hn, k.2, hs, hk, rfl⟩

/-- The pool itself is the parent of a name without slashes. -/
def hasParent (p : Zpool) (name : DatasetName) : Bool :=
  match rsplitOnce ['/'] name.val with
  | none => true
  | some (parent, _) => (p.find parent).isSome

/-- Some dataset is a clone of the snapshot. -/
def Cloned (p : Zpool) (k : DatasetName × SnapshotName) : Prop :=
  ∃ d ∈ p.datasets.keys, (p.datasets.lookup d).any (·.origin = some k)

instance (p : Zpool) (k : DatasetName × SnapshotName) : Decidable (p.Cloned k) :=
  inferInstanceAs (Decidable (∃ d ∈ p.datasets.keys, (p.datasets.lookup d).any (·.origin = some k)))

/-- Some dataset elsewhere is a clone of a snapshot in or below the dataset. -/
def ClonedOut (p : Zpool) (name : Text) : Prop :=
  ∃ d ∈ p.datasets.keys, below name d.val = false ∧
    (p.datasets.lookup d).any fun x => x.origin.any fun k => below name k.1.val

instance (p : Zpool) (name : Text) : Decidable (p.ClonedOut name) :=
  inferInstanceAs (Decidable (∃ d ∈ p.datasets.keys, below name d.val = false ∧
    (p.datasets.lookup d).any fun x => x.origin.any fun k => below name k.1.val))

def create (p : Zpool) (name : Text) (d : Dataset) : Except Text Zpool :=
  match DatasetName.read name with
  | none => .error "invalid character in name".toList
  | some n =>
    if (p.datasets.lookup n).isSome then .error "dataset already exists".toList
    else if p.hasParent n then .ok { p with datasets := p.datasets.insert n d }
    else .error "parent does not exist".toList

/-- `zfs set`, of a property. -/
def adjust (p : Zpool) (name : Text) (f : Dataset → Dataset) : Except Text Zpool :=
  match p.find name with
  | none => .error "dataset does not exist".toList
  | some (n, d) => .ok { p with datasets := p.datasets.insert n (f d) }

/-- The pool without a dataset and all that is below it. -/
def without (p : Zpool) (name : Text) : Zpool where
  datasets := p.datasets.retain fun d _ => !below name d.val
  snapshots := p.snapshots.retain fun k _ => !below name k.1.val

def destroy (p : Zpool) (name : Text) : Except Text Zpool :=
  match p.find name with
  | none => .error "dataset does not exist".toList
  | some _ =>
    if p.ClonedOut name then .error "filesystem has dependent clones".toList
    else .ok (p.without name)

def addSnapshot (p : Zpool) (n : DatasetName) (s : SnapshotName) (now : UInt64) :
    Except Text Zpool :=
  if (p.snapshots.lookup (n, s)).isSome then .error "dataset already exists".toList
  else .ok { p with snapshots := p.snapshots.insert (n, s) now }

def snapshot (p : Zpool) (dataset name : Text) (now : UInt64) : Except Text Zpool :=
  match p.find dataset, SnapshotName.read name with
  | none, _ => .error "dataset does not exist".toList
  | some _, none => .error "invalid character in name".toList
  | some (n, _), some s => p.addSnapshot n s now

def destroySnapshot (p : Zpool) (dataset name : Text) : Except Text Zpool :=
  match p.findSnapshot dataset name with
  | none => .error "could not find any snapshots to destroy; check snapshot names.".toList
  | some k =>
    if p.Cloned k then .error "snapshot has dependent clones".toList
    else .ok { p with snapshots := p.snapshots.erase k }

def clone (p : Zpool) (dataset snapshot name mountpoint : Text) : Except Text Zpool :=
  match p.findSnapshot dataset snapshot with
  | none => .error "dataset does not exist".toList
  | some k => p.create name ⟨0, mountpoint, some k⟩

/-- `zfs receive -F`: a full stream makes its dataset or fills one that has no snapshot. -/
def receive (p : Zpool) (dest mountpoint : Text) (stream : ZfsStream) (now : UInt64) :
    Except Text Zpool :=
  match stream.base, p.find dest with
  | none, none =>
    match DatasetName.read dest with
    | none => .error "invalid character in name".toList
    | some n => do (← p.create dest ⟨0, mountpoint, none⟩).addSnapshot n stream.snapshot now
  | none, some (n, _) =>
    if ∃ k ∈ p.snapshots.keys, k.1 = n then .error "destination has snapshots".toList
    else p.addSnapshot n stream.snapshot now
  | some _, none => .error "destination does not exist".toList
  | some base, some (n, _) =>
    if (p.snapshots.lookup (n, base)).isSome then p.addSnapshot n stream.snapshot now
    else .error "most recent snapshot does not match incremental source".toList

/-! ### What the operations change -/

section

variable {p p' : Zpool} {name dataset snap : Text}

/-- A command that prints nothing. -/
theorem of_map_eq_ok {x : Except Text Zpool} {out : Text}
    (h : x.map (fun p => (p, ([] : Text))) = .ok (p', out)) : x = .ok p' := by
  cases x with
  | error e => cases h
  | ok p =>
    cases h
    rfl

theorem create_eq_ok {d : Dataset} (h : p.create name d = .ok p') :
    ∃ n : DatasetName, n.val = name ∧ p.datasets.lookup n = none ∧
      p' = { p with datasets := p.datasets.insert n d } := by
  unfold create at h
  split at h
  · cases h
  · next n hn =>
    split at h
    · cases h
    · next hnew =>
      split at h
      · cases h
        exact ⟨n, readName_eq_some.mp hn, Option.not_isSome_iff_eq_none.mp hnew, rfl⟩
      · cases h

theorem addSnapshot_eq_ok {n : DatasetName} {s : SnapshotName} {now : UInt64}
    (h : p.addSnapshot n s now = .ok p') :
    p.snapshots.lookup (n, s) = none ∧
      p' = { p with snapshots := p.snapshots.insert (n, s) now } := by
  unfold addSnapshot at h
  split at h
  · cases h
  · next hnew =>
    cases h
    exact ⟨Option.not_isSome_iff_eq_none.mp hnew, rfl⟩

theorem clone_eq_ok {mountpoint : Text} (h : p.clone dataset snap name mountpoint = .ok p') :
    ∃ k, p.findSnapshot dataset snap = some k ∧ p.create name ⟨0, mountpoint, some k⟩ = .ok p' := by
  unfold clone at h
  split at h
  · cases h
  · next k hk => exact ⟨k, hk, h⟩

theorem adjust_eq_ok {f : Dataset → Dataset} (h : p.adjust name f = .ok p') :
    ∃ n d, p.find name = some (n, d) ∧ p' = { p with datasets := p.datasets.insert n (f d) } := by
  unfold adjust at h
  split at h
  · cases h
  · next n d hfind =>
    cases h
    exact ⟨n, d, hfind, rfl⟩

theorem destroy_eq_ok (h : p.destroy name = .ok p') :
    (p.find name).isSome ∧ p' = p.without name := by
  unfold destroy at h
  split at h
  · cases h
  · next found hfound =>
    split at h
    · cases h
    · cases h
      exact ⟨by rw [hfound]; rfl, rfl⟩

theorem snapshot_eq_ok {now : UInt64} (h : p.snapshot dataset name now = .ok p') :
    ∃ n s, (p.find dataset).isSome ∧ n.val = dataset ∧ s.val = name ∧
      p.addSnapshot n s now = .ok p' := by
  unfold snapshot at h
  split at h
  · cases h
  · cases h
  · next n d s hfind hread =>
    exact ⟨n, s, by rw [hfind]; rfl, (find_eq_some.mp hfind).1, readName_eq_some.mp hread, h⟩

theorem destroySnapshot_eq_ok (h : p.destroySnapshot dataset name = .ok p') :
    ∃ k, p.findSnapshot dataset name = some k ∧ p' = { p with snapshots := p.snapshots.erase k } := by
  unfold destroySnapshot at h
  split at h
  · cases h
  · next k hk =>
    split at h
    · cases h
    · cases h
      exact ⟨k, hk, rfl⟩

end

end Zpool

/-! ## Commands -/

/-- A command of the backend, with what it reads. -/
inductive HostCommand
  | zfs (command : ZfsCommand)
  | setQuota (name : Text) (size : UInt64)
  | getMountpoint (name : Text)
  | setMountpoint (name target : Text)
  /-- The row of one dataset. -/
  | listDataset (name : Text)
  /-- The snapshots of a dataset and of all that is below it. -/
  | listSnapshots (name : Text)
  | receive (dest : Text) (stream : ZfsStream)
  | exportfs
  | chown (owner path : Text)
  | chmod (mode path : Text)
deriving DecidableEq

namespace HostCommand

variable (cfg : ZfsConfig)

def argv : HostCommand → List Text
  | .zfs command => command.argv cfg
  | .setQuota name size =>
    ["zfs".toList, "set".toList, "quota=".toList ++ writeU64 size, cfg.full name]
  | .getMountpoint name =>
    ["zfs".toList, "get".toList, "-H".toList, "-o".toList, "value".toList, "mountpoint".toList,
      cfg.full name]
  | .setMountpoint name target =>
    ["zfs".toList, "set".toList, "mountpoint=".toList ++ target, cfg.full name]
  | .listDataset name =>
    ["zfs".toList, "list".toList, "-H".toList, "-o".toList,
      "name,mountpoint,used,avail,origin".toList, cfg.full name]
  | .listSnapshots name =>
    ["zfs".toList, "list".toList, "-Hp".toList, "-r".toList, "-o".toList,
      "name,creation,used,refer".toList, "-t".toList, "snapshot".toList, cfg.full name]
  | .receive dest _ => ["zfs".toList, "receive".toList, "-F".toList, cfg.full dest]
  | .exportfs => ["exportfs".toList, "-r".toList]
  | .chown owner path => ["chown".toList, owner, path]
  | .chmod mode path => ["chmod".toList, mode, path]

/-- `argv.join(" ")`. -/
def text (command : HostCommand) : Text := [' '].intercalate (command.argv cfg)

end HostCommand

/-- How far a write of a file got. -/
inductive WriteResult
  | done
  /-- The file could not be opened. -/
  | failed
  /-- The file holds so much of its content. -/
  | cut (length : Nat)
deriving DecidableEq

/-- What is in the file afterwards, if it was opened. -/
def WriteResult.left (content : Text) : WriteResult → Option Text
  | .done => some content
  | .failed => none
  | .cut length => some (content.take length)

/-- What the machine decides during a call. -/
structure ZfsEnv where
  /-- What keeps a command from doing its work, at each attempt of it. -/
  fault : HostCommand → Nat → Option CommandFault
  /-- The exports directory is there or can be made. -/
  makeDir : Bool
  write : WriteResult
  /-- A file may be removed. -/
  unlink : Bool
  now : UInt64
  /-- The order in which rows are printed. -/
  datasets : List DatasetName
  snapshots : List (DatasetName × SnapshotName)
  /-- The columns `used` and `avail` of a dataset. -/
  space : Text → Text × Text
  poolMountpoint : Text
  /-- The columns `used` and `refer` of a snapshot. -/
  usage : DatasetName × SnapshotName → UInt64 × UInt64

/-- Each dataset and each snapshot of the pool has its row. -/
def ZfsEnv.Prints (env : ZfsEnv) (p : Zpool) : Prop :=
  (env.datasets.Nodup ∧ env.datasets.toFinset = p.datasets.keys) ∧
    env.snapshots.Nodup ∧ env.snapshots.toFinset = p.snapshots.keys

instance (env : ZfsEnv) (p : Zpool) : Decidable (env.Prints p) :=
  inferInstanceAs (Decidable ((_ ∧ _) ∧ _ ∧ _))

namespace Zpool

variable (cfg : ZfsSettings) (env : ZfsEnv)

/-- One line of output, in columns. -/
def row (columns : List Text) : Text := ['\t'].intercalate columns ++ ['\n']

def originColumn (d : Dataset) : Text :=
  d.origin.elim ['-'] fun k => cfg.full k.1.val ++ '@' :: k.2.val

def datasetRow (n : DatasetName) (d : Dataset) : Text :=
  row [cfg.full n.val, d.mountpoint, (env.space (cfg.full n.val)).1,
    (env.space (cfg.full n.val)).2, originColumn cfg d]

def poolRow : Text :=
  row [cfg.pool, env.poolMountpoint, (env.space cfg.pool).1, (env.space cfg.pool).2, ['-']]

def snapshotRow (k : DatasetName × SnapshotName) (creation : UInt64) : Text :=
  row [cfg.full k.1.val ++ '@' :: k.2.val, writeU64 creation, writeU64 (env.usage k).1,
    writeU64 (env.usage k).2]

/-- The rows of the snapshots in and below a dataset. -/
def snapshotRows (p : Zpool) (name : Text) : List Text :=
  env.snapshots.filterMap fun k =>
    if below name k.1.val then (p.snapshots.lookup k).map (snapshotRow cfg env k) else none

/-- What a command does to the pool and prints, or what it says instead. -/
def apply (p : Zpool) : HostCommand → Except Text (Zpool × Text)
  | .zfs (.create name sizeBytes) =>
    (p.create name ⟨sizeBytes.getD 0, cfg.srvRoot ++ '/' :: name, none⟩).map (·, [])
  | .zfs (.clone dataset snap name) =>
    (p.clone dataset snap name (cfg.srvRoot ++ '/' :: name)).map (·, [])
  | .zfs (.destroy name) => (p.destroy name).map (·, [])
  | .zfs (.snapshot dataset name) => (p.snapshot dataset name env.now).map (·, [])
  | .zfs (.destroySnapshot dataset name) => (p.destroySnapshot dataset name).map (·, [])
  | .zfs .list =>
    .ok (p, poolRow cfg env ++
      env.datasets.flatMap fun n => ((p.datasets.lookup n).map (datasetRow cfg env n)).getD [])
  | .setQuota name size => (p.adjust name fun d => { d with quota := size }).map (·, [])
  | .getMountpoint name =>
    match p.find name with
    | none => .error "dataset does not exist".toList
    | some (_, d) => .ok (p, d.mountpoint ++ ['\n'])
  | .setMountpoint name target =>
    (p.adjust name fun d => { d with mountpoint := target }).map (·, [])
  | .listDataset name =>
    match p.find name with
    | none => .error "dataset does not exist".toList
    | some (n, d) => .ok (p, datasetRow cfg env n d)
  | .listSnapshots name =>
    match p.find name with
    | none => .error "dataset does not exist".toList
    | some _ => .ok (p, (p.snapshotRows cfg env name).flatten)
  | .receive dest stream =>
    (p.receive dest ('/' :: cfg.full dest) stream env.now).map (·, [])
  | .exportfs | .chown _ _ | .chmod _ _ => .ok (p, [])

end Zpool

end NessieStore
