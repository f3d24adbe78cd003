import NessieStore.Lib.Program
import NessieStore.Lib.SortBy
import NessieStore.Nfs.Edit

/-!
# System calls

The system calls that `std::fs` makes for the server, on a tree of names with contents and attributes.
A call fails without an effect, or it answers with a value, the file system after it and the inodes
that it touched: those whose data or attributes it read or changed, made or removed. The directories
that a path only leads through are not among them. A file descriptor is the inode it was opened on,
which is all that can be told apart when one operation follows the other.

The kernel's own choices come with a call: the number and the attributes of a new inode (`Fresh`); the
call fails for want of space if the number is taken or of another device. Times that the kernel keeps
by itself, and the mode bits that it clears on a change of owner, are left out.

Each call comes with the lemma that says what it did if it succeeded; no proof elsewhere unfolds one.
-/

set_option autoImplicit false

namespace NessieStore.Nfs

open Lib

/-- `nfstime3`. -/
structure Time where
  seconds : UInt32
  nseconds : UInt32
deriving DecidableEq

structure Attr where
  mode : UInt32
  uid : UInt32
  gid : UInt32
  atime : Time
  mtime : Time
deriving DecidableEq

structure FileSys where
  shape : Shape
  data : Inode → Bytes
  attr : Inode → Attr

/-- What the kernel makes of a new inode. -/
structure Fresh where
  inode : Inode
  attr : Attr

inductive FileType
  | file
  | dir
  | symlink
deriving DecidableEq

structure Metadata where
  inode : Inode
  fileType : FileType
  len : Nat
  attr : Attr
deriving DecidableEq

structure Done (α : Type) where
  value : α
  fs : FileSys
  touched : List Inode

abbrev Syscall (α : Type) := FileSys → Except Errno (Done α)

/-! ## Reading -/

/-- What names are sorted by. -/
def nameBytes (n : Name) : List Nat := n.bytes.map UInt8.toNat

theorem nameBytes_injective : Function.Injective nameBytes := by
  rintro ⟨b, hb⟩ ⟨b', hb'⟩ h
  cases List.map_injective_iff.mpr (fun _ _ => UInt8.toNat_inj.mp) h
  rfl

/-- The entries of a directory. `readdir` lists them in an order of its own, which nothing depends
on. -/
def Shape.listing (s : Shape) (d : Inode) : List (Name × Inode) :=
  (sortBy nameBytes_injective (s.names d)).filterMap fun n => (s.entry d n).map (n, ·)

theorem Shape.mem_listing {s : Shape} {d : Inode} {n : Name} {i : Inode} :
    (n, i) ∈ s.listing d ↔ s.entry d n = some i := by
  unfold listing
  rw [List.mem_filterMap]
  constructor
  · rintro ⟨m, -, hm⟩
    obtain ⟨j, hj, heq⟩ := Option.map_eq_some_iff.mp hm
    cases heq
    exact hj
  · intro h
    exact ⟨n, (mem_sortBy nameBytes_injective).mpr (mem_names h), by rw [h]; rfl⟩

theorem Shape.nodup_listing (s : Shape) (d : Inode) : ((s.listing d).map Prod.fst).Nodup := by
  unfold listing
  rw [List.map_filterMap]
  have hname : ∀ {n b : Name}, b ∈ ((s.entry d n).map (n, ·)).map Prod.fst → n = b := by
    intro n b hb
    obtain ⟨e, he, rfl⟩ := Option.map_eq_some_iff.mp hb
    obtain ⟨i, -, rfl⟩ := Option.map_eq_some_iff.mp he
    rfl
  refine List.Nodup.filterMap ?_ (nodup_sortBy nameBytes_injective (s.names d))
  intro n n' b hb hb'
  exact (hname hb).trans (hname hb').symm

/-- A directory is as long as it has entries. -/
def FileSys.metadata (fs : FileSys) (i : Inode) : Metadata :=
  match fs.shape.nodes.lookup i with
  | some (.dir entries) => ⟨i, .dir, entries.keys.card, fs.attr i⟩
  | some (.symlink target) => ⟨i, .symlink, target.length, fs.attr i⟩
  | _ => ⟨i, .file, (fs.data i).length, fs.attr i⟩

@[simp] theorem FileSys.metadata_inode (fs : FileSys) (i : Inode) : (fs.metadata i).inode = i := by
  unfold metadata
  split <;> rfl

namespace Syscall

/-- `symlink_metadata`. -/
def lstat (p : Path) : Syscall Metadata := fun fs => do
  let i ← fs.shape.find false p
  .ok ⟨fs.metadata i, fs, [i]⟩

def readLink (p : Path) : Syscall Bytes := fun fs => do
  let i ← fs.shape.find false p
  match fs.shape.linkTarget i with
  | some target => .ok ⟨target, fs, [i]⟩
  | none => .error .invalidInput

/-- `read_dir`, with the metadata of each entry. -/
def readDir (p : Path) : Syscall (List (Name × Metadata)) := fun fs => do
  let d ← fs.shape.find true p
  if fs.shape.isDir d then
    let entries := fs.shape.listing d
    .ok ⟨entries.map fun e => (e.1, fs.metadata e.2), fs, d :: entries.map Prod.snd⟩
  else .error .notADirectory

/-- Open what exists, for reading or for writing. -/
def openFile (write : Bool) (p : Path) : Syscall Inode := fun fs => do
  let i ← fs.shape.find true p
  if write && fs.shape.isDir i then .error .isADirectory else .ok ⟨i, fs, [i]⟩

/-! ## Descriptors -/

def fstat (i : Inode) : Syscall Metadata := fun fs => .ok ⟨fs.metadata i, fs, [i]⟩

/-- An offset is an `i64` to the kernel. -/
def seek (offset : UInt64) : Syscall Unit := fun fs =>
  if offset.toNat < 2 ^ 63 then .ok ⟨(), fs, []⟩ else .error .invalidInput

def read (i : Inode) (offset : UInt64) (count : Nat) : Syscall Bytes := fun fs =>
  if fs.shape.isDir i then .error .isADirectory
  else .ok ⟨((fs.data i).drop offset.toNat).take count, fs, [i]⟩

/-- Bytes at an offset; a gap before it is filled with zeros. -/
def splice (old : Bytes) (offset : Nat) (bytes : Bytes) : Bytes :=
  old.take offset ++ List.replicate (offset - old.length) 0 ++ bytes ++
    old.drop (offset + bytes.length)

/-- `write_all`. -/
def writeAll (i : Inode) (offset : UInt64) (bytes : Bytes) : Syscall Unit := fun fs =>
  if bytes = [] then .ok ⟨(), fs, [i]⟩
  else if offset.toNat + bytes.length < 2 ^ 63 then
    .ok ⟨(), { fs with data := Function.update fs.data i (splice (fs.data i) offset.toNat bytes) }, [i]⟩
  else .error .fileTooLarge

def setLen (i : Inode) (size : UInt64) : Syscall Unit := fun fs =>
  if size.toNat < 2 ^ 63 then
    let data := (fs.data i).take size.toNat ++ List.replicate (size.toNat - (fs.data i).length) 0
    .ok ⟨(), { fs with data := Function.update fs.data i data }, [i]⟩
  else .error .invalidInput

def syncData (i : Inode) : Syscall Unit := fun fs => .ok ⟨(), fs, [i]⟩

/-! ## Attributes -/

/-- The calls that change attributes all follow a link at the end of the path. -/
def setAttr (f : Attr → Attr) (p : Path) : Syscall Unit := fun fs => do
  let i ← fs.shape.find true p
  .ok ⟨(), { fs with attr := Function.update fs.attr i (f (fs.attr i)) }, [i]⟩

/-- `set_file_atime`. -/
def setAtime (t : Time) : Path → Syscall Unit := setAttr fun a => { a with atime := t }

/-- `set_file_mtime`. -/
def setMtime (t : Time) : Path → Syscall Unit := setAttr fun a => { a with mtime := t }

/-- `set_permissions`. -/
def chmod (mode : UInt32) : Path → Syscall Unit := setAttr fun a => { a with mode := mode }

def chown (uid gid : Option UInt32) : Path → Syscall Unit :=
  setAttr fun a => { a with uid := uid.getD a.uid, gid := gid.getD a.gid }

/-! ## Names -/

/-- Bind a free name of `d` to a new inode. -/
def insert (node : Node) (fresh : Fresh) (d : Inode) (n : Name) : Syscall Unit := fun fs =>
  if fresh.inode ∉ fs.shape.nodes ∧ fresh.inode.dev = d.dev then
    .ok
      { value := ()
        fs :=
          { shape := fs.shape.add d n fresh.inode node
            data := Function.update fs.data fresh.inode []
            attr := Function.update fs.attr fresh.inode fresh.attr }
        touched := [d, fresh.inode] }
  else .error .storageFull

/-- `O_WRONLY | O_CREAT`: follows a link at the end, also one that dangles. -/
def create (fresh : Fresh) (p : Path) : Syscall Unit := fun fs => do
  match ← fs.shape.locate true p with
  | .here _ => .error .isADirectory
  | .entry _ _ (some i) => if fs.shape.isDir i then .error .isADirectory else .ok ⟨(), fs, [i]⟩
  | .entry stack n none => insert .file fresh (fs.shape.top stack) n fs

/-- The calls that make a node where nothing may be yet, a link included. -/
def make (node : Node) (fresh : Fresh) (p : Path) : Syscall Unit := fun fs => do
  match ← fs.shape.locate false p with
  | .entry stack n none => insert node fresh (fs.shape.top stack) n fs
  | _ => .error .alreadyExists

/-- `O_WRONLY | O_CREAT | O_EXCL`. -/
def createNew : Fresh → Path → Syscall Unit := make .file

/-- `create_dir`. -/
def mkdir : Fresh → Path → Syscall Unit := make (.dir ∅)

def symlink (target : Bytes) (fresh : Fresh) (p : Path) : Syscall Unit := fun fs =>
  if 0 ∈ target then .error .invalidInput
  else if target = [] then .error .notFound
  else make (.symlink target) fresh p fs

/-- `linkat` without `AT_SYMLINK_FOLLOW`: a link to a link is one to the link itself. -/
def hardLink (existing p : Path) : Syscall Unit := fun fs => do
  let i ← fs.shape.find false existing
  match ← fs.shape.locate false p with
  | .entry stack n none =>
    if i.dev ≠ (fs.shape.top stack).dev then .error .crossesDevices
    else if fs.shape.isDir i then .error .permissionDenied
    else .ok ⟨(), { fs with shape := fs.shape.setEntry (fs.shape.top stack) n (some i) },
      [i, fs.shape.top stack]⟩
  | _ => .error .alreadyExists

/-- `remove_file`. -/
def unlink (p : Path) : Syscall Unit := fun fs => do
  match ← fs.shape.locate false p with
  | .here _ => .error .isADirectory
  | .entry _ _ none => .error .notFound
  | .entry stack n (some i) =>
    if fs.shape.isDir i then .error .isADirectory
    else .ok ⟨(), { fs with shape := fs.shape.unlink (fs.shape.top stack) n i },
      [fs.shape.top stack, i]⟩

/-- `remove_dir`; a directory of another device than its parent's is a mount point. -/
def rmdir (p : Path) : Syscall Unit := fun fs => do
  match ← fs.shape.locate false p with
  | .here _ => .error .resourceBusy
  | .entry _ _ none => .error .notFound
  | .entry stack n (some i) =>
    if fs.shape.isDir i = false then .error .notADirectory
    else if i.dev ≠ (fs.shape.top stack).dev then .error .resourceBusy
    else if fs.shape.names i ≠ ∅ then .error .directoryNotEmpty
    else .ok ⟨(), { fs with shape := fs.shape.unlink (fs.shape.top stack) n i },
      [fs.shape.top stack, i]⟩

/-- What a rename checks of the inode that the new name is bound to. -/
def replaceable (s : Shape) (i : Inode) : Option Inode → Except Errno Unit
  | none => .ok ()
  | some j =>
    if s.isDir i && !s.isDir j then .error .notADirectory
    else if !s.isDir i && s.isDir j then .error .isADirectory
    else if s.names j ≠ ∅ then .error .directoryNotEmpty
    else .ok ()

def rename (src dst : Path) : Syscall Unit := fun fs => do
  match ← fs.shape.locate false src with
  | .here _ => .error .resourceBusy
  | .entry _ _ none => .error .notFound
  | .entry stack n (some i) =>
    match ← fs.shape.locate false dst with
    | .here _ => .error .resourceBusy
    | .entry stack' n' old =>
      let d := fs.shape.top stack
      let d' := fs.shape.top stack'
      if d.dev ≠ d'.dev then .error .crossesDevices
      -- a directory does not go beneath itself, nor does it replace one that it is beneath
      else if i ∈ stack'.map Prod.snd then .error .invalidInput
      else if ∃ j ∈ old, j ∈ stack.map Prod.snd then .error .directoryNotEmpty
      -- two names of one file stay as they are
      else if old = some i then .ok ⟨(), fs, [i]⟩
      else if i.dev ≠ d.dev ∨ ∃ j ∈ old, j.dev ≠ d'.dev then .error .resourceBusy
      else do
        replaceable fs.shape i old
        .ok ⟨(), { fs with shape := fs.shape.move d n i d' n' old }, [d, i, d'] ++ old.toList⟩

/-! ## What a call did -/

variable {fs : FileSys}

theorem lstat_ok {p : Path} {r : Done Metadata} (h : lstat p fs = .ok r) :
    ∃ i, fs.shape.find false p = .ok i ∧ r = ⟨fs.metadata i, fs, [i]⟩ := by
  obtain ⟨i, hi, h⟩ := ok_of_bind h
  cases h
  exact ⟨i, hi, rfl⟩

theorem lstat_of_find {p : Path} {i : Inode} (h : fs.shape.find false p = .ok i) :
    lstat p fs = .ok ⟨fs.metadata i, fs, [i]⟩ := by
  unfold lstat
  rw [h]
  rfl

theorem readLink_ok {p : Path} {r : Done Bytes} (h : readLink p fs = .ok r) :
    ∃ i, fs.shape.find false p = .ok i ∧ r.fs = fs ∧ r.touched = [i] := by
  obtain ⟨i, hi, h⟩ := ok_of_bind h
  split at h
  · cases h
    exact ⟨i, hi, rfl, rfl⟩
  · cases h

theorem readDir_ok {p : Path} {r : Done (List (Name × Metadata))} (h : readDir p fs = .ok r) :
    ∃ d, fs.shape.find true p = .ok d ∧ fs.shape.isDir d = true ∧ r =
      ⟨(fs.shape.listing d).map fun e => (e.1, fs.metadata e.2), fs,
        d :: (fs.shape.listing d).map Prod.snd⟩ := by
  obtain ⟨d, hd, h⟩ := ok_of_bind h
  split at h
  · next hdir =>
    cases h
    exact ⟨d, hd, hdir, rfl⟩
  · cases h

theorem openFile_ok {write : Bool} {p : Path} {r : Done Inode} (h : openFile write p fs = .ok r) :
    ∃ i, fs.shape.find true p = .ok i ∧ r = ⟨i, fs, [i]⟩ := by
  obtain ⟨i, hi, h⟩ := ok_of_bind h
  split at h
  · cases h
  · cases h
    exact ⟨i, hi, rfl⟩

/-- A call on a descriptor touches nothing else and leaves the names alone. -/
def OnDescriptor {α : Type} (i : Inode) (call : Syscall α) : Prop :=
  ∀ fs r, call fs = .ok r → r.fs.shape = fs.shape ∧ ∀ j ∈ r.touched, j = i

theorem fstat_on (i : Inode) : OnDescriptor i (fstat i) := by
  rintro fs r ⟨⟩
  exact ⟨rfl, fun j => List.mem_singleton.mp⟩

theorem seek_on (i : Inode) (offset : UInt64) : OnDescriptor i (seek offset) := by
  intro fs r h
  unfold seek at h
  split at h
  · cases h
    exact ⟨rfl, fun j hj => absurd hj List.not_mem_nil⟩
  · cases h

theorem read_on (i : Inode) (offset : UInt64) (count : Nat) : OnDescriptor i (read i offset count) := by
  intro fs r h
  unfold read at h
  split at h
  · cases h
  · cases h
    exact ⟨rfl, fun j => List.mem_singleton.mp⟩

theorem writeAll_on (i : Inode) (offset : UInt64) (bytes : Bytes) :
    OnDescriptor i (writeAll i offset bytes) := by
  intro fs r h
  unfold writeAll at h
  split at h
  · cases h
    exact ⟨rfl, fun j => List.mem_singleton.mp⟩
  · split at h
    · cases h
      exact ⟨rfl, fun j => List.mem_singleton.mp⟩
    · cases h

theorem setLen_on (i : Inode) (size : UInt64) : OnDescriptor i (setLen i size) := by
  intro fs r h
  unfold setLen at h
  split at h
  · cases h
    exact ⟨rfl, fun j => List.mem_singleton.mp⟩
  · cases h

theorem syncData_on (i : Inode) : OnDescriptor i (syncData i) := by
  rintro fs r ⟨⟩
  exact ⟨rfl, fun j => List.mem_singleton.mp⟩

theorem setAttr_ok {f : Attr → Attr} {p : Path} {r : Done Unit} (h : setAttr f p fs = .ok r) :
    ∃ i, fs.shape.find true p = .ok i ∧ r.fs.shape = fs.shape ∧ r.touched = [i] := by
  obtain ⟨i, hi, h⟩ := ok_of_bind h
  cases h
  exact ⟨i, hi, rfl, rfl⟩

/-- A node was made at the free end of a path. -/
structure Made (node : Node) (fresh : Fresh) (follow : Bool) (p : Path) (fs : FileSys)
    (r : Done Unit) (stack : Stack) (n : Name) : Prop where
  located : fs.shape.locate follow p = .ok (.entry stack n none)
  unused : fresh.inode ∉ fs.shape.nodes
  shape : r.fs.shape = fs.shape.add (fs.shape.top stack) n fresh.inode node
  touched : r.touched = [fs.shape.top stack, fresh.inode]

theorem Made.edit {node : Node} {fresh : Fresh} {follow : Bool} {p : Path} {r : Done Unit}
    {stack : Stack} {n : Name} (h : Made node fresh follow p fs r stack n) (hnode : node.Bare) :
    fs.shape.Edit [fs.shape.top stack] r.fs.shape := by
  obtain ⟨-, hdir, hfree⟩ := Shape.locate_landed h.located
  rw [h.shape]
  exact .add hdir hfree.symm h.unused hnode

theorem Made.binds {node : Node} {fresh : Fresh} {follow : Bool} {p : Path} {r : Done Unit}
    {stack : Stack} {n : Name} (h : Made node fresh follow p fs r stack n) (hnode : node.Bare) :
    fs.shape.Binds (fs.shape.top stack) n fresh.inode r.fs.shape := by
  obtain ⟨-, hdir, hfree⟩ := Shape.locate_landed h.located
  refine ⟨hfree.symm, fun a m => ?_⟩
  rw [h.shape]
  exact Shape.entry_add hdir h.unused hnode n a m

theorem insert_ok {node : Node} {fresh : Fresh} {d : Inode} {n : Name} {r : Done Unit}
    (h : insert node fresh d n fs = .ok r) :
    fresh.inode ∉ fs.shape.nodes ∧ r.fs.shape = fs.shape.add d n fresh.inode node ∧
      r.touched = [d, fresh.inode] := by
  unfold insert at h
  split at h
  · next hok =>
    cases h
    exact ⟨hok.1, rfl, rfl⟩
  · cases h

theorem create_ok {fresh : Fresh} {p : Path} {r : Done Unit} (h : create fresh p fs = .ok r) :
    (∃ i, fs.shape.find true p = .ok i ∧ r = ⟨(), fs, [i]⟩) ∨
      ∃ stack n, Made .file fresh true p fs r stack n := by
  obtain ⟨l, hl, h⟩ := ok_of_bind h
  split at h
  · cases h
  · next i =>
    split at h
    · cases h
    · cases h
      refine .inl ⟨i, ?_, rfl⟩
      unfold Shape.find
      rw [hl]
      rfl
  · next stack n =>
    obtain ⟨hunused, hshape, htouched⟩ := insert_ok h
    exact .inr ⟨stack, n, hl, hunused, hshape, htouched⟩

theorem make_ok {node : Node} {fresh : Fresh} {p : Path} {r : Done Unit}
    (h : make node fresh p fs = .ok r) : ∃ stack n, Made node fresh false p fs r stack n := by
  obtain ⟨l, hl, h⟩ := ok_of_bind h
  split at h
  · next stack n =>
    obtain ⟨hunused, hshape, htouched⟩ := insert_ok h
    exact ⟨stack, n, hl, hunused, hshape, htouched⟩
  · cases h

theorem symlink_ok {target : Bytes} {fresh : Fresh} {p : Path} {r : Done Unit}
    (h : symlink target fresh p fs = .ok r) :
    ∃ stack n, Made (.symlink target) fresh false p fs r stack n := by
  unfold symlink at h
  split at h
  · cases h
  · split at h
    · cases h
    · exact make_ok h

/-- A file was given a second name. -/
structure Linked (existing p : Path) (fs : FileSys) (r : Done Unit) (i : Inode) (stack : Stack)
    (n : Name) : Prop where
  found : fs.shape.find false existing = .ok i
  located : fs.shape.locate false p = .ok (.entry stack n none)
  file : fs.shape.isDir i = false
  shape : r.fs.shape = fs.shape.setEntry (fs.shape.top stack) n (some i)
  touched : r.touched = [i, fs.shape.top stack]

theorem Linked.binds {existing p : Path} {r : Done Unit} {i : Inode} {stack : Stack} {n : Name}
    (h : Linked existing p fs r i stack n) :
    fs.shape.Binds (fs.shape.top stack) n i r.fs.shape := by
  obtain ⟨-, hdir, hfree⟩ := Shape.locate_landed h.located
  refine ⟨hfree.symm, fun a m => ?_⟩
  rw [h.shape, Shape.entry_setEntry hdir]

theorem Linked.edit {existing p : Path} {r : Done Unit} {i : Inode} {stack : Stack} {n : Name}
    (h : Linked existing p fs r i stack n) (hmem : i ∈ fs.shape.nodes) :
    fs.shape.Edit [fs.shape.top stack] r.fs.shape := by
  obtain ⟨-, hdir, hfree⟩ := Shape.locate_landed h.located
  rw [h.shape]
  exact .link hdir hfree.symm hmem h.file

theorem hardLink_ok {existing p : Path} {r : Done Unit} (h : hardLink existing p fs = .ok r) :
    ∃ i stack n, Linked existing p fs r i stack n := by
  obtain ⟨i, hi, h⟩ := ok_of_bind h
  obtain ⟨l, hl, h⟩ := ok_of_bind h
  split at h
  · next stack n =>
    split at h
    · cases h
    · split at h
      · cases h
      · next hfile =>
        cases h
        exact ⟨i, stack, n, hi, hl, Bool.eq_false_iff.mpr hfile, rfl, rfl⟩
  · cases h

/-- The name at the end of a path was removed. -/
structure Removed (p : Path) (fs : FileSys) (r : Done Unit) (stack : Stack) (n : Name) (i : Inode) :
    Prop where
  located : fs.shape.locate false p = .ok (.entry stack n (some i))
  empty : ∀ m, fs.shape.entry i m = none
  shape : r.fs.shape = fs.shape.unlink (fs.shape.top stack) n i
  touched : r.touched = [fs.shape.top stack, i]

theorem Removed.edit {p : Path} {r : Done Unit} {stack : Stack} {n : Name} {i : Inode}
    (h : Removed p fs r stack n i) : fs.shape.Edit [fs.shape.top stack] r.fs.shape := by
  obtain ⟨-, -, hentry⟩ := Shape.locate_landed h.located
  rw [h.shape]
  exact .unlink hentry.symm h.empty

/-- The entries after a removal. -/
theorem Removed.entry_eq {p : Path} {r : Done Unit} {stack : Stack} {n : Name} {i : Inode}
    (h : Removed p fs r stack n i) (a : Inode) (m : Name) : r.fs.shape.entry a m =
      if a = fs.shape.top stack ∧ m = n then none else fs.shape.entry a m := by
  obtain ⟨-, -, hentry⟩ := Shape.locate_landed h.located
  rw [h.shape]
  exact Shape.entry_unlink hentry.symm h.empty a m

theorem unlink_ok {p : Path} {r : Done Unit} (h : unlink p fs = .ok r) :
    ∃ stack n i, Removed p fs r stack n i := by
  obtain ⟨l, hl, h⟩ := ok_of_bind h
  split at h
  · cases h
  · cases h
  · next stack n i =>
    split at h
    · cases h
    · next hfile =>
      cases h
      refine ⟨stack, n, i, hl, ?_, rfl, rfl⟩
      intro m
      cases hm : fs.shape.entry i m with
      | none => rfl
      | some j => exact absurd (Shape.isDir_of_entry hm) hfile

/-- A directory without names has no entry. -/
theorem entry_of_names_empty {s : Shape} {i : Inode} (h : s.names i = ∅) (m : Name) :
    s.entry i m = none := by
  cases hm : s.entry i m with
  | none => rfl
  | some j =>
    have hmem := Shape.mem_names hm
    rw [h] at hmem
    exact absurd hmem (Finset.notMem_empty m)

theorem rmdir_ok {p : Path} {r : Done Unit} (h : rmdir p fs = .ok r) :
    ∃ stack n i, Removed p fs r stack n i := by
  obtain ⟨l, hl, h⟩ := ok_of_bind h
  split at h
  · cases h
  · cases h
  · next stack n i =>
    split at h
    · cases h
    · split at h
      · cases h
      · split at h
        · cases h
        · next hempty =>
          cases h
          exact ⟨stack, n, i, hl, entry_of_names_empty (not_not.mp hempty), rfl, rfl⟩

/-- A name was moved. -/
structure Moved (src dst : Path) (fs : FileSys) (r : Done Unit) (stack : Stack) (n : Name) (i : Inode)
    (stack' : Stack) (n' : Name) (old : Option Inode) : Prop where
  source : fs.shape.locate false src = .ok (.entry stack n (some i))
  target : fs.shape.locate false dst = .ok (.entry stack' n' old)
  above : i ∉ stack'.map Prod.snd
  beneath : ∀ j ∈ old, j ∉ stack.map Prod.snd
  replaced : ∀ j ∈ old, j ≠ i ∧ ∀ m, fs.shape.entry j m = none
  shape : r.fs.shape = fs.shape.move (fs.shape.top stack) n i (fs.shape.top stack') n' old
  touched : r.touched = [fs.shape.top stack, i, fs.shape.top stack'] ++ old.toList

theorem Moved.edit {src dst : Path} {r : Done Unit} {stack : Stack} {n : Name} {i : Inode}
    {stack' : Stack} {n' : Name} {old : Option Inode} (h : Moved src dst fs r stack n i stack' n' old) :
    fs.shape.Edit [fs.shape.top stack, fs.shape.top stack'] r.fs.shape := by
  obtain ⟨-, -, hentry⟩ := Shape.locate_landed h.source
  obtain ⟨-, hdir, hold⟩ := Shape.locate_landed h.target
  have hreplaced := h.replaced
  rw [h.shape, hold]
  rw [hold] at hreplaced
  exact .move hentry.symm hdir hreplaced

/-- The entries after a move. -/
theorem Moved.entry_eq {src dst : Path} {r : Done Unit} {stack : Stack} {n : Name} {i : Inode}
    {stack' : Stack} {n' : Name} {old : Option Inode} (h : Moved src dst fs r stack n i stack' n' old)
    (c : Inode) (m : Name) :
    r.fs.shape.entry c m =
      if c = fs.shape.top stack' ∧ m = n' then some i
      else if c = fs.shape.top stack ∧ m = n then none else fs.shape.entry c m := by
  obtain ⟨-, -, hentry⟩ := Shape.locate_landed h.source
  obtain ⟨-, hdir, hold⟩ := Shape.locate_landed h.target
  have hreplaced := h.replaced
  rw [hold] at hreplaced
  rw [h.shape, hold]
  exact Shape.entry_move hentry.symm hdir hreplaced c m

theorem replaceable_ok {s : Shape} {i : Inode} {old : Option Inode}
    (h : replaceable s i old = .ok ()) : ∀ j ∈ old, ∀ m, s.entry j m = none := by
  rintro j rfl
  rw [replaceable] at h
  split at h
  · cases h
  · split at h
    · cases h
    · split at h
      · cases h
      · next hempty => exact entry_of_names_empty (not_not.mp hempty)

/-- A rename moved a name, or found two names of one file. -/
theorem rename_ok {src dst : Path} {r : Done Unit} (h : rename src dst fs = .ok r) :
    (∃ stack n i stack' n', fs.shape.locate false src = .ok (.entry stack n (some i)) ∧
        fs.shape.locate false dst = .ok (.entry stack' n' (some i)) ∧ r = ⟨(), fs, [i]⟩) ∨
      ∃ stack n i stack' n' old, Moved src dst fs r stack n i stack' n' old := by
  obtain ⟨l, hl, h⟩ := ok_of_bind h
  split at h
  · cases h
  · cases h
  · next stack n i =>
    obtain ⟨l', hl', h⟩ := ok_of_bind h
    split at h
    · cases h
    · next stack' n' old =>
      dsimp only at h
      split at h
      · cases h
      · split at h
        · cases h
        · next habove =>
          split at h
          · cases h
          · next hbeneath =>
            split at h
            · next hsame =>
              cases h
              subst hsame
              exact .inl ⟨stack, n, i, stack', n', hl, hl', rfl⟩
            · next hsame =>
              split at h
              · cases h
              · obtain ⟨_, hreplace, h⟩ := ok_of_bind h
                cases h
                refine .inr ⟨stack, n, i, stack', n', old, hl, hl', habove, ?_, ?_, rfl, rfl⟩
                · intro j hj hmem
                  exact hbeneath ⟨j, hj, hmem⟩
                · intro j hj
                  refine ⟨?_, replaceable_ok hreplace j hj⟩
                  rintro rfl
                  exact hsame hj

end Syscall

end NessieStore.Nfs
