import NessieStore.Lib.Dialogue
import NessieStore.Rpc.Types

/-!
# What the server asks of a file system

The part of the trait `NFSFileSystem` (`nessie-nfsserve`, `vfs.rs`) that listing a directory needs. Its
asynchronous methods are questions: between two of them other tasks run, so nothing relates one answer
to the next. The methods that only convert a handle are a structure, which carries what the server
relies on: the handle of a file leads back to the file, no other handle does, and it is short.

`readdir_simple` has a body in the trait, which the one file system of the repository keeps.
-/

set_option autoImplicit false

namespace NessieStore.Rpc

open Lib
open Nfs (FileId)

/-! ## Questions and answers -/

structure DirEntry3 where
  fileid : FileId
  cookie : UInt64
  name : NfsString
  attr : Fattr3

structure ReadDirResult where
  entries : List DirEntry3
  isEnd : Bool

inductive VfsCall
  | getattr (id : FileId)
  | readdir (dirid : FileId) (startAfter : UInt64) (maxEntries : Nat)

/-- What a method returns when it succeeds. -/
@[reducible] def VfsCall.Value : VfsCall → Type
  | getattr .. => Fattr3
  | readdir .. => ReadDirResult

@[reducible] def VfsCall.Answer (q : VfsCall) : Type := Except NfsStat3 q.Value

/-- A program of the server: it fails if what it reads from the client is malformed. -/
abbrev Proc := Dialogue VfsCall VfsCall.Answer XdrError

def getattr (id : FileId) : Proc (Except NfsStat3 Fattr3) := Dialogue.query (VfsCall.getattr id)

/-! ## Handles -/

structure NfsFileSystem where
  idToFh : FileId → NfsFh3
  fhToId : NfsFh3 → Except NfsStat3 FileId
  fhToId_eq_ok_iff : ∀ {fh id}, fhToId fh = .ok id ↔ fh = idToFh id
  length_idToFh : ∀ id, (idToFh id).length ≤ 64

theorem NfsFileSystem.fhToId_idToFh (vfs : NfsFileSystem) (id : FileId) :
    vfs.fhToId (vfs.idToFh id) = .ok id := vfs.fhToId_eq_ok_iff.mpr rfl

theorem NfsFileSystem.fits_idToFh (vfs : NfsFileSystem) (id : FileId) : Fits (vfs.idToFh id) := by
  have := vfs.length_idToFh id
  rw [fits_bytes]
  omega

/-- `to_le_bytes` of a `u64`. -/
def u64LeBytes (n : UInt64) : Bytes := leBytes 8 n.toNat

/-- `from_le_bytes`. -/
def u64OfLeBytes (bytes : Bytes) : UInt64 := UInt64.ofNat (ofLeBytes bytes)

@[simp] theorem length_u64LeBytes (n : UInt64) : (u64LeBytes n).length = 8 := length_leBytes 8 _

@[simp] theorem u64OfLeBytes_u64LeBytes (n : UInt64) : u64OfLeBytes (u64LeBytes n) = n := by
  rw [u64OfLeBytes, u64LeBytes, ofLeBytes_leBytes (w := 8) n.toNat_lt, UInt64.ofNat_toNat]

theorem u64LeBytes_u64OfLeBytes {bytes : Bytes} (h : bytes.length = 8) :
    u64LeBytes (u64OfLeBytes bytes) = bytes := by
  have hlt := ofLeBytes_lt bytes
  have hback := leBytes_ofLeBytes bytes
  rw [h] at hlt hback
  rw [u64LeBytes, u64OfLeBytes, UInt64.toNat_ofNat_of_lt' hlt, hback]

/-- The handles of `PassthroughFs` (`nessie-nfs`, `unix.rs`): the fileid alone, which survives a
restart of the daemon. -/
def passthroughHandles : NfsFileSystem where
  idToFh := u64LeBytes
  fhToId fh := if fh.length = 8 then .ok (u64OfLeBytes fh) else .error .badhandle
  fhToId_eq_ok_iff := by
    intro fh id
    constructor
    · intro h
      split at h
      · next hlen =>
        cases h
        rw [u64LeBytes_u64OfLeBytes hlen]
      · cases h
    · rintro rfl
      rw [if_pos (length_u64LeBytes id), u64OfLeBytes_u64LeBytes]
  length_idToFh id := by simp

/-! ## Methods with a body -/

def readdirSimple (dirid : FileId) (count : Nat) : Proc (Except NfsStat3 ReadDirResult) :=
  Dialogue.query (VfsCall.readdir dirid 0 count)

end NessieStore.Rpc
