import NessieStore.Rpc.Listing

/-!
# The passthrough answers

`PassthroughFs` as the file system of the wire server (`nessie-nfs`, `unix.rs`): each question is
answered by one operation of the passthrough server, which also changes the world. What the wire has
and the model of the passthrough server leaves out is added here: the constants of `fattr3`, and
`ctime`, which the kernel chooses.
-/

set_option autoImplicit false

namespace NessieStore.Rpc

open Lib
open Nfs (FileId Time World)

/-! ## Values on the wire -/

def NfsStat3.ofStat : Nfs.NfsStat → NfsStat3
  | .noent => .noent
  | .io => .io
  | .acces => .acces
  | .exist => .exist
  | .notdir => .notdir
  | .stale => .stale

def Ftype3.ofFileType : Nfs.FileType → Ftype3
  | .file => .reg
  | .dir => .dir
  | .symlink => .lnk

/-- `metadata_to_fattr3`, with its constants. -/
def fattr3 (ctime : FileId → Time) (a : Nfs.Fattr) : Fattr3 where
  ftype := .ofFileType a.ftype
  mode := a.mode
  nlink := .ofNat a.nlink
  uid := a.uid
  gid := a.gid
  size := .ofNat a.size
  used := .ofNat a.used
  rdev := ⟨0, 0⟩
  fsid := 0
  fileid := a.fileid
  atime := a.atime
  mtime := a.mtime
  ctime := ctime a.fileid

def dirEntry3 (ctime : FileId → Time) (e : Nfs.DirEntry) : DirEntry3 :=
  ⟨e.fileid, e.cookie, e.name, fattr3 ctime e.attr⟩

/-! ## Answers -/

/-- How an operation ends, on the wire. -/
def outcome {α β : Type} (f : α → β) : EStateM.Result Nfs.NfsStat World α → Except NfsStat3 β × World
  | .ok a w => (.ok (f a), w)
  | .error stat w => (.error (.ofStat stat), w)

/-- The answer to a question, and the world behind it. -/
def VfsCall.answered (sha : Bytes → UInt64) (ctime : FileId → Time) :
    (q : VfsCall) → World → q.Answer × World
  | .getattr id, w => outcome (fattr3 ctime) (Nfs.getattr id w)
  | .readdir dirid startAfter maxEntries, w =>
    outcome (fun r => ⟨r.1.map (dirEntry3 ctime), r.2⟩)
      (Nfs.readdir sha dirid startAfter maxEntries w)

end NessieStore.Rpc
