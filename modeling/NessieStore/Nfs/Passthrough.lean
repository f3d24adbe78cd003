import NessieStore.Core.Cas
import NessieStore.Nfs.Cookie

/-!
# The passthrough server

`PassthroughFs`: NFS operations on handles, carried out by system calls on paths. The server keeps for
every fileid the paths under which it has seen that inode, and `path_of` is the only way from a handle
to a path.

An operation is a program over the server, the file system and a log of what the system calls touched.
The log is what the claims about the server speak of; nothing reads it. Operations run one at a time.
What the kernel and the clock choose comes with each operation (`Kernel`).
-/

set_option autoImplicit false

namespace NessieStore.Nfs

open Lib

/-- The answers of `nfsstat3` that the server gives. -/
inductive NfsStat
  | noent
  | io
  | acces
  | exist
  | notdir
  | stale
deriving DecidableEq

def ioToNfs : Errno → NfsStat
  | .notFound => .noent
  | .permissionDenied => .acces
  | .alreadyExists => .exist
  | _ => .io

structure PassthroughFs where
  root : Path
  map : Map FileId (List Path)
  rootId : FileId

/-- One system call, with the names before and after it. -/
structure Access where
  before : Shape
  touched : List Inode
  after : Shape

structure World where
  server : PassthroughFs
  fs : FileSys
  log : List Access

/-- What the kernel and the clock choose during an operation. -/
structure Kernel where
  fresh : Fresh
  now : Time

abbrev Server := EStateM NfsStat World

/-- A system call; `io_to_nfs` says how it fails. -/
def syscall {α : Type} (call : Syscall α) : Server α := fun w =>
  match call w.fs with
  | .error e => .error (ioToNfs e) w
  | .ok r => .ok r.value { w with fs := r.fs, log := ⟨w.fs.shape, r.touched, r.fs.shape⟩ :: w.log }

/-- `or(Err(NFS3ERR_IO))`. -/
def orIo {α : Type} (x : Server α) : Server α := fun w =>
  match x w with
  | .ok a w => .ok a w
  | .error _ w => .error .io w

namespace PassthroughFs

/-- `PassthroughFs::new`. -/
def new (fs : FileSys) (root : List Comp) : Except Errno PassthroughFs := do
  let root ← fs.shape.canonicalize root
  let m ← Syscall.lstat root fs
  let rootId := m.value.inode.fileid
  .ok ⟨root, Finmap.singleton rootId [root], rootId⟩

/-! ## The table -/

/-- The paths that the table has for a handle. -/
def stored (s : PassthroughFs) (id : FileId) : List Path := (s.map.lookup id).getD []

/-- `note_path`. -/
def note (s : PassthroughFs) (id : FileId) (p : Path) : PassthroughFs :=
  if p ∈ s.stored id then s else { s with map := s.map.insert id (s.stored id ++ [p]) }

/-- `forget_path`. -/
def forget (s : PassthroughFs) (id : FileId) (p : Path) : PassthroughFs :=
  match s.map.lookup id with
  | none => s
  | some paths =>
    let kept := paths.filter (· ≠ p)
    if kept = [] then { s with map := s.map.erase id } else { s with map := s.map.insert id kept }

end PassthroughFs

/-- What `symlink_metadata` says of a path, if anything. -/
def FileSys.look (fs : FileSys) (p : Path) : Option Inode :=
  (Syscall.lstat p fs).toOption.map (·.value.inode)

/-- The path still names the inode of the handle. -/
def FileSys.isName (fs : FileSys) (id : FileId) (p : Path) : Bool :=
  (fs.look p).any fun i => i.fileid = id

def pathOf (id : FileId) : Server Path := fun w =>
  match w.server.map.lookup id with
  | none => .error .stale w
  | some paths =>
    -- `retain` looks at every path
    let log := ⟨w.fs.shape, paths.filterMap w.fs.look, w.fs.shape⟩ :: w.log
    match paths.filter (w.fs.isName id) with
    | [] => .error .stale
        { w with server := { w.server with map := w.server.map.erase id }, log := log }
    | p :: kept => .ok p
        { w with server := { w.server with map := w.server.map.insert id (p :: kept) }, log := log }

def notePath (id : FileId) (p : Path) : Server Unit :=
  modify fun w => { w with server := w.server.note id p }

def forgetPath (id : FileId) (p : Path) : Server Unit :=
  modify fun w => { w with server := w.server.forget id p }

def register (p : Path) : Server (FileId × Metadata) := do
  let m ← syscall (Syscall.lstat p)
  notePath m.inode.fileid p
  return (m.inode.fileid, m)

/-- `child_path`. -/
def childPath (root dir : Path) (name : Bytes) : Except NfsStat Path :=
  if name = [] ∨ name = [46] then .ok dir
  else if name = [46, 46] then
    -- never above the root of the export
    .ok (if dir = root then root else if dir = [] then root else dir.dropLast)
  else if h : ValidName name then .ok (dir ++ [⟨name, h⟩])
  else .error .acces

def child (dir : Path) (name : Bytes) : Server Path := fun w =>
  match childPath w.server.root dir name with
  | .ok p => .ok p w
  | .error e => .error e w

/-! ## Attributes -/

inductive SetTime
  | dontChange
  | serverTime
  | clientTime (t : Time)

/-- `sattr3`. -/
structure Sattr where
  mode : Option UInt32
  uid : Option UInt32
  gid : Option UInt32
  size : Option UInt64
  atime : SetTime
  mtime : SetTime

/-- `UnixCred`. -/
structure UnixCred where
  uid : UInt32
  gid : UInt32

/-- `fattr3`, without the fields that are constant and without `ctime`. -/
structure Fattr where
  ftype : FileType
  mode : UInt32
  nlink : Nat
  uid : UInt32
  gid : UInt32
  size : Nat
  used : Nat
  fileid : FileId
  atime : Time
  mtime : Time

/-- Always writable. -/
def modeUnmask (mode : UInt32) : UInt32 := (mode ||| 0x80) &&& 0x1FF

def metadataToFattr (id : FileId) (m : Metadata) : Fattr :=
  let nlink := match m.fileType with
    | .file => 1
    | .symlink => 1
    | .dir => 2
  ⟨m.fileType, modeUnmask m.attr.mode, nlink, m.attr.uid, m.attr.gid, m.len, m.len, id, m.attr.atime,
    m.attr.mtime⟩

/-- The time to set, if there is one. -/
def SetTime.time (now : Time) : SetTime → Option Time
  | .dontChange => none
  | .serverTime => some now
  | .clientTime t => some t

/-- A call that is made for the value that the client sent, if it sent one; how it ends is ignored. -/
def setSome {α : Type} (call : α → Path → Syscall Unit) (value : Option α) (p : Path) : Server Unit :=
  match value with
  | none => pure ()
  | some a => do
    let _ ← attempt (syscall (call a p))

/-- `path_setattr`. -/
def pathSetattr (now : Time) (attr : Sattr) (p : Path) : Server Unit := do
  setSome Syscall.setAtime (attr.atime.time now) p
  setSome Syscall.setMtime (attr.mtime.time now) p
  setSome Syscall.chmod (attr.mode.map modeUnmask) p
  match attr.size with
  | none => pure ()
  | some size => do
    let file ← orIo (syscall (Syscall.openFile true p))
    orIo (syscall (Syscall.setLen file size))

/-- `S_ISGID`. -/
def setGid : UInt32 := 0o2000

/-- `chown_new`. -/
def chownNew (id dirid : FileId) (cred : UnixCred) : Server Unit := do
  let path ← attempt (pathOf id)
  let parent ← attempt (pathOf dirid)
  match path, parent with
  | .ok path, .ok parent => do
    let parentMeta ← attempt (syscall (Syscall.lstat parent))
    let parentSetgid := match parentMeta with
      | .ok m => decide (m.attr.mode &&& setGid ≠ 0)
      | .error _ => false
    let gid := if parentSetgid then none else some cred.gid
    let _ ← attempt (syscall (Syscall.chown (some cred.uid) gid path))
  | _, _ => pure ()

/-! ## Operations -/

def lookup (dirid : FileId) (filename : Bytes) : Server FileId := do
  let dir ← pathOf dirid
  let path ← child dir filename
  let (id, _) ← register path
  return id

def getattr (id : FileId) : Server Fattr := do
  let path ← pathOf id
  let m ← syscall (Syscall.lstat path)
  return metadataToFattr id m

def setattr (now : Time) (id : FileId) (attr : Sattr) : Server Fattr := do
  let path ← pathOf id
  pathSetattr now attr path
  if attr.uid.isSome || attr.gid.isSome then
    syscall (Syscall.chown attr.uid attr.gid path)
  getattr id

def read (id : FileId) (offset : UInt64) (count : UInt32) : Server (Bytes × Bool) := do
  let path ← pathOf id
  let file ← syscall (Syscall.openFile false path)
  let m ← syscall (Syscall.fstat file)
  syscall (Syscall.seek offset)
  -- the loop reads until the buffer is full or the file ends; an empty buffer is full
  let data ← if count = 0 then pure [] else syscall (Syscall.read file offset count.toNat)
  return (data, decide (m.len ≤ saturatingAdd offset.toNat data.length))

/-- `write_stable`; `write` is the one with `stable` false. -/
def writeStable (id : FileId) (offset : UInt64) (data : Bytes) (stable : Bool) :
    Server (Fattr × Bool) := do
  let path ← pathOf id
  let file ← syscall (Syscall.openFile true path)
  syscall (Syscall.seek offset)
  syscall (Syscall.writeAll file offset data)
  if stable then syscall (Syscall.syncData file)
  return (← getattr id, stable)

def commit (id : FileId) : Server Unit := do
  let path ← pathOf id
  let file ← syscall (Syscall.openFile false path)
  syscall (Syscall.syncData file)

def create (k : Kernel) (dirid : FileId) (filename : Bytes) (attr : Sattr) :
    Server (FileId × Fattr) := do
  let dir ← pathOf dirid
  let path ← child dir filename
  syscall (Syscall.create k.fresh path)
  let _ ← attempt (pathSetattr k.now attr path)
  let (id, m) ← register path
  return (id, metadataToFattr id m)

/-- The operations that make a node by one system call and register it. -/
def makeNode (call : Path → Syscall Unit) (dirid : FileId) (name : Bytes) :
    Server (FileId × Metadata) := do
  let dir ← pathOf dirid
  let path ← child dir name
  syscall (call path)
  register path

def createExclusive (k : Kernel) (dirid : FileId) (filename : Bytes) : Server FileId := do
  let (id, _) ← makeNode (Syscall.createNew k.fresh) dirid filename
  return id

def mkdir (k : Kernel) (dirid : FileId) (dirname : Bytes) : Server (FileId × Fattr) := do
  let (id, m) ← makeNode (Syscall.mkdir k.fresh) dirid dirname
  return (id, metadataToFattr id m)

def symlink (k : Kernel) (dirid : FileId) (linkname target : Bytes) : Server (FileId × Fattr) := do
  let (id, m) ← makeNode (Syscall.symlink target k.fresh) dirid linkname
  return (id, metadataToFattr id m)

def createWithCred (k : Kernel) (dirid : FileId) (filename : Bytes) (attr : Sattr)
    (cred : UnixCred) : Server (FileId × Fattr) := do
  let (id, _) ← create k dirid filename attr
  chownNew id dirid cred
  return (id, ← getattr id)

def createExclusiveWithCred (k : Kernel) (dirid : FileId) (filename : Bytes) (cred : UnixCred) :
    Server FileId := do
  let id ← createExclusive k dirid filename
  chownNew id dirid cred
  return id

def mkdirWithCred (k : Kernel) (dirid : FileId) (dirname : Bytes) (cred : UnixCred) :
    Server (FileId × Fattr) := do
  let (id, _) ← mkdir k dirid dirname
  chownNew id dirid cred
  return (id, ← getattr id)

def remove (dirid : FileId) (filename : Bytes) : Server Unit := do
  let dir ← pathOf dirid
  let path ← child dir filename
  let m ← syscall (Syscall.lstat path)
  if m.fileType = .dir then syscall (Syscall.rmdir path) else syscall (Syscall.unlink path)
  forgetPath m.inode.fileid path

def rename (fromDirid : FileId) (fromFilename : Bytes) (toDirid : FileId) (toFilename : Bytes) :
    Server Unit := do
  let fromDir ← pathOf fromDirid
  let toDir ← pathOf toDirid
  let src ← child fromDir fromFilename
  let dst ← child toDir toFilename
  syscall (Syscall.rename src dst)
  -- the old name is pruned by `path_of` once it stops naming its inode
  let _ ← attempt (register dst)

def readlink (id : FileId) : Server Bytes := do
  let path ← pathOf id
  syscall (Syscall.readLink path)

def link (id dirid : FileId) (linkname : Bytes) : Server Fattr := do
  let existing ← pathOf id
  let dir ← pathOf dirid
  let newPath ← child dir linkname
  syscall (Syscall.hardLink existing newPath)
  let (newId, m) ← register newPath
  return metadataToFattr newId m

structure DirEntry where
  fileid : FileId
  cookie : UInt64
  name : Bytes
  attr : Fattr

/-- `file_name`. -/
def fileName (p : Path) : Bytes := (p.getLast?.map Name.bytes).getD []

/-- The loop of `readdir`, over the entries behind the cookie that the client has. -/
def listEntries : Nat → List (UInt64 × FileId × Path) → Server (List DirEntry)
  | 0, _ => pure []
  | _, [] => pure []
  | maxEntries + 1, (cookie, id, path) :: rest => do
    let m ← syscall (Syscall.lstat path)
    notePath id path
    let entries ← listEntries maxEntries rest
    return ⟨id, cookie, fileName path, metadataToFattr id m⟩ :: entries

/-- The entries of a directory, in the order of their cookies. -/
def withCookies (sha : Bytes → UInt64) (dir : Path) (found : List (Name × Metadata)) :
    List (UInt64 × FileId × Path) :=
  let ids (p : Path) := (found.find? fun e => dir ++ [e.1] = p).map (·.2.inode.fileid)
  (assignCookies (found.map fun e => (nameCookie sha e.1.bytes, dir ++ [e.1]))).filterMap fun e =>
    (ids e.2).map fun id => (e.1, id, e.2)

def readdir (sha : Bytes → UInt64) (dirid startAfter : FileId) (maxEntries : Nat) :
    Server (List DirEntry × Bool) := do
  let dir ← pathOf dirid
  let dmeta ← syscall (Syscall.lstat dir)
  if dmeta.fileType ≠ .dir then throw .notdir
  let entries ← syscall (Syscall.readDir dir)
  let found := withCookies sha dir entries
  let skip := (found.takeWhile fun e => e.1 ≤ startAfter).length
  let totalAfter := found.length - skip
  let entries ← listEntries maxEntries (found.drop skip)
  return (entries, entries.length = totalAfter)

/-! ## Requests -/

inductive NfsOp
  | lookup (dirid : FileId) (filename : Bytes)
  | getattr (id : FileId)
  | setattr (id : FileId) (attr : Sattr)
  | read (id : FileId) (offset : UInt64) (count : UInt32)
  | write (id : FileId) (offset : UInt64) (data : Bytes) (stable : Bool)
  | commit (id : FileId)
  | create (dirid : FileId) (filename : Bytes) (attr : Sattr)
  | createExclusive (dirid : FileId) (filename : Bytes)
  | mkdir (dirid : FileId) (dirname : Bytes)
  | createWithCred (dirid : FileId) (filename : Bytes) (attr : Sattr) (cred : UnixCred)
  | createExclusiveWithCred (dirid : FileId) (filename : Bytes) (cred : UnixCred)
  | mkdirWithCred (dirid : FileId) (dirname : Bytes) (cred : UnixCred)
  | remove (dirid : FileId) (filename : Bytes)
  | rename (fromDirid : FileId) (fromFilename : Bytes) (toDirid : FileId) (toFilename : Bytes)
  | readdir (dirid startAfter : FileId) (maxEntries : Nat)
  | symlink (dirid : FileId) (linkname target : Bytes)
  | readlink (id : FileId)
  | link (id dirid : FileId) (linkname : Bytes)

inductive NfsReply
  | done
  | fileid (id : FileId)
  | attr (attr : Fattr)
  | data (data : Bytes) (eof : Bool)
  | written (attr : Fattr) (stable : Bool)
  | made (id : FileId) (attr : Fattr)
  | entries (entries : List DirEntry) (isEnd : Bool)
  | target (target : Bytes)

def NfsOp.exec (sha : Bytes → UInt64) (k : Kernel) : NfsOp → Server NfsReply
  | .lookup dirid filename => .fileid <$> Nfs.lookup dirid filename
  | .getattr id => .attr <$> Nfs.getattr id
  | .setattr id attr => .attr <$> Nfs.setattr k.now id attr
  | .read id offset count => (fun r => .data r.1 r.2) <$> Nfs.read id offset count
  | .write id offset data stable =>
    (fun r => .written r.1 r.2) <$> Nfs.writeStable id offset data stable
  | .commit id => (fun _ => .done) <$> Nfs.commit id
  | .create dirid filename attr => (fun r => .made r.1 r.2) <$> Nfs.create k dirid filename attr
  | .createExclusive dirid filename => .fileid <$> Nfs.createExclusive k dirid filename
  | .mkdir dirid dirname => (fun r => .made r.1 r.2) <$> Nfs.mkdir k dirid dirname
  | .createWithCred dirid filename attr cred =>
    (fun r => .made r.1 r.2) <$> Nfs.createWithCred k dirid filename attr cred
  | .createExclusiveWithCred dirid filename cred =>
    .fileid <$> Nfs.createExclusiveWithCred k dirid filename cred
  | .mkdirWithCred dirid dirname cred =>
    (fun r => .made r.1 r.2) <$> Nfs.mkdirWithCred k dirid dirname cred
  | .remove dirid filename => (fun _ => .done) <$> Nfs.remove dirid filename
  | .rename fromDirid fromFilename toDirid toFilename =>
    (fun _ => .done) <$> Nfs.rename fromDirid fromFilename toDirid toFilename
  | .readdir dirid startAfter maxEntries =>
    (fun r => .entries r.1 r.2) <$> Nfs.readdir sha dirid startAfter maxEntries
  | .symlink dirid linkname target =>
    (fun r => .made r.1 r.2) <$> Nfs.symlink k dirid linkname target
  | .readlink id => .target <$> Nfs.readlink id
  | .link id dirid linkname => .attr <$> Nfs.link id dirid linkname

structure NfsAct where
  kernel : Kernel
  op : NfsOp

def nfsStep (sha : Bytes → UInt64) (w : World) (a : NfsAct) : Option World :=
  match a.op.exec sha a.kernel w with
  | .ok _ w' => some w'
  | .error _ w' => some w'

/-! ## What the table holds -/

theorem FileSys.look_eq_some {fs : FileSys} {p : Path} {i : Inode} :
    fs.look p = some i ↔ fs.shape.find false p = .ok i := by
  unfold look Syscall.lstat
  cases fs.shape.find false p with
  | error e =>
    constructor
    · rintro ⟨⟩
    · rintro ⟨⟩
  | ok j =>
    show some (fs.metadata j).inode = some i ↔ _
    rw [FileSys.metadata_inode, Option.some_inj, Except.ok.injEq]

theorem FileSys.isName_iff {fs : FileSys} {id : FileId} {p : Path} :
    fs.isName id p = true ↔ ∃ i, fs.shape.find false p = .ok i ∧ i.fileid = id := by
  unfold isName
  rw [Option.any_eq_true]
  simp only [decide_eq_true_iff, FileSys.look_eq_some]

namespace PassthroughFs

variable {s : PassthroughFs}

theorem mem_stored_note {id id' : FileId} {p q : Path} :
    q ∈ (s.note id p).stored id' ↔ q ∈ s.stored id' ∨ id' = id ∧ q = p := by
  unfold note
  split
  · next hmem =>
    constructor
    · exact .inl
    · rintro (h | ⟨rfl, rfl⟩)
      · exact h
      · exact hmem
  · unfold stored
    dsimp only
    rw [Map.lookup_insert_eq]
    split
    · next hid =>
      subst hid
      rw [Option.getD_some, List.mem_append, List.mem_singleton]
      simp
    · next hid => simp [hid]

theorem mem_stored_forget {id id' : FileId} {p q : Path} :
    q ∈ (s.forget id p).stored id' ↔ q ∈ s.stored id' ∧ ¬ (id' = id ∧ q = p) := by
  unfold forget stored
  by_cases hid : id' = id
  · subst hid
    split
    · next hnone => simp [hnone]
    · next paths hpaths =>
      have hmem : q ∈ paths.filter (· ≠ p) ↔ q ∈ (s.map.lookup id').getD [] ∧ ¬ (id' = id' ∧ q = p) := by
        rw [hpaths, Option.getD_some, List.mem_filter]
        simp
      rw [← hmem]
      dsimp only
      split
      · next hkept =>
        dsimp only
        rw [Finmap.lookup_erase, hkept, Option.getD_none]
      · dsimp only
        rw [Finmap.lookup_insert, Option.getD_some]
  · simp only [hid, false_and, not_false_eq_true, and_true]
    split
    · rfl
    · split
      · dsimp only
        rw [Finmap.lookup_erase_ne hid]
      · dsimp only
        rw [Finmap.lookup_insert_of_ne _ hid]

@[simp] theorem note_root (id : FileId) (p : Path) : (s.note id p).root = s.root := by
  unfold note
  split <;> rfl

@[simp] theorem forget_root (id : FileId) (p : Path) : (s.forget id p).root = s.root := by
  unfold forget
  split
  · rfl
  · dsimp only
    split <;> rfl

end PassthroughFs

theorem mem_withCookies {sha : Bytes → UInt64} {dir : Path} {found : List (Name × Metadata)}
    {x : UInt64 × FileId × Path} (h : x ∈ withCookies sha dir found) :
    ∃ m ∈ found, x.2.2 = dir ++ [m.1] ∧ x.2.1 = m.2.inode.fileid := by
  obtain ⟨⟨cookie, p⟩, -, hx⟩ := List.mem_filterMap.mp h
  obtain ⟨id, hid, rfl⟩ := Option.map_eq_some_iff.mp hx
  obtain ⟨m, hm, rfl⟩ := Option.map_eq_some_iff.mp hid
  have hname := List.find?_some hm
  exact ⟨m, List.mem_of_find?_eq_some hm, (of_decide_eq_true hname).symm, rfl⟩

/-- What `path_of` leaves behind: the paths of the handle that still name it, and a look at each of
them. -/
structure Pruned (id : FileId) (w w' : World) : Prop where
  fs : w'.fs = w.fs
  root : w'.server.root = w.server.root
  kept : w'.server.stored id = (w.server.stored id).filter (w.fs.isName id)
  others : ∀ id', id' ≠ id → w'.server.stored id' = w.server.stored id'
  log : w'.log = w.log ∨
    w'.log = ⟨w.fs.shape, (w.server.stored id).filterMap w.fs.look, w.fs.shape⟩ :: w.log

/-- The path of a handle is the first of its paths that still names it. -/
theorem pathOf_spec (id : FileId) (w : World) :
    match pathOf id w with
    | .ok p w' => Pruned id w w' ∧ ((w.server.stored id).filter (w.fs.isName id)).head? = some p
    | .error _ w' => Pruned id w w' ∧ (w.server.stored id).filter (w.fs.isName id) = [] := by
  unfold pathOf
  cases hpaths : w.server.map.lookup id with
  | none =>
    have hstored : w.server.stored id = [] := by
      unfold PassthroughFs.stored
      rw [hpaths, Option.getD_none]
    dsimp only
    rw [hstored, List.filter_nil]
    exact ⟨⟨rfl, rfl, by rw [hstored, List.filter_nil], fun _ _ => rfl, .inl rfl⟩, rfl⟩
  | some paths =>
    have hstored : w.server.stored id = paths := by
      unfold PassthroughFs.stored
      rw [hpaths, Option.getD_some]
    dsimp only
    rw [hstored]
    cases hkept : paths.filter (w.fs.isName id) with
    | nil =>
      refine ⟨⟨rfl, rfl, ?_, ?_, .inr (by rw [hstored])⟩, rfl⟩
      · rw [hstored, hkept]
        unfold PassthroughFs.stored
        dsimp only
        rw [Finmap.lookup_erase, Option.getD_none]
      · intro id' hid
        unfold PassthroughFs.stored
        dsimp only
        rw [Finmap.lookup_erase_ne hid]
    | cons p kept =>
      refine ⟨⟨rfl, rfl, ?_, ?_, .inr (by rw [hstored])⟩, rfl⟩
      · rw [hstored, hkept]
        unfold PassthroughFs.stored
        dsimp only
        rw [Finmap.lookup_insert, Option.getD_some]
      · intro id' hid
        unfold PassthroughFs.stored
        dsimp only
        rw [Finmap.lookup_insert_of_ne _ hid]

namespace Pruned

variable {id : FileId} {w w' : World}

theorem stored_subset (h : Pruned id w w') {id' : FileId} {p : Path}
    (hp : p ∈ w'.server.stored id') : p ∈ w.server.stored id' := by
  by_cases hid : id' = id
  · subst hid
    rw [h.kept] at hp
    exact List.mem_of_mem_filter hp
  · rwa [h.others id' hid] at hp

end Pruned

end NessieStore.Nfs
