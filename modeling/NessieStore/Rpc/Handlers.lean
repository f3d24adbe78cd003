import NessieStore.Rpc.Vfs

/-!
# The procedure that lists a directory

`nfsproc3_readdir` (`nfs_handlers.rs` of `nessie-nfsserve`): a procedure reads its arguments from what
is left of the message, asks the file system, and writes a reply. A reply is the header of an accepted
call, a status and what the procedure puts behind it. An argument that cannot be read is an error, which
closes the connection.
-/

set_option autoImplicit false

namespace NessieStore.Rpc

open Lib
open Nfs (FileId)

structure RpcContext where
  vfs : NfsFileSystem

/-- Reads an argument; what is behind it is left. -/
def parse {α : Type} [Xdr α] (input : Bytes) : Proc (α × Bytes) :=
  Dialogue.ofExcept (deserialize input)

/-- The header of an accepted call, the status, and what follows it. -/
def answer (xid : UInt32) (stat : NfsStat3) (body : Bytes) : Bytes :=
  serialize (makeSuccessReply xid) ++ (serialize stat ++ body)

def noAttr : Bytes := serialize (none : PostOpAttr)

structure Readdir3args where
  dir : NfsFh3
  cookie : UInt64
  cookieverf : Verf3
  dircount : UInt32

instance : Xdr Readdir3args where
  codec := structCodec (fun a => (a.dir, a.cookie, a.cookieverf, a.dircount))
    (fun f => ⟨f.1, f.2.1, f.2.2.1, f.2.2.2⟩) fun _ => rfl

structure Entry3 where
  fileid : FileId
  name : NfsString
  cookie : UInt64
deriving DecidableEq

instance : Xdr Entry3 where
  codec := structCodec (fun e => (e.fileid, e.name, e.cookie)) (fun f => ⟨f.1, f.2.1, f.2.2⟩)
    fun _ => rfl

def DirEntry3.entry (e : DirEntry3) : Entry3 := ⟨e.fileid, e.name, e.cookie⟩

/-- The time of the directory's last change, which no one compares with what the client sends. -/
def dirversion : Except NfsStat3 Fattr3 → Verf3
  | .ok v =>
    ⟨beBytes 8 (v.mtime.seconds.toUInt64 <<< 32 ||| v.mtime.nseconds.toUInt64).toNat,
      length_beBytes 8 _⟩
  | .error _ => zeroVerf

/-- `dircount as usize - 128`, which wraps around below 128 when overflow is not checked. -/
def maxBytesAllowed (dircount : UInt32) : Nat := (dircount.toNat + 2 ^ 64 - 128) % 2 ^ 64

/-- The loop over the entries: as many as fit, each behind a flag, and whether all of them did.
`written` bytes of the reply are there already. -/
def writeEntries (maxBytes : Nat) : Nat → List DirEntry3 → Bytes × Bool
  | _, [] => ([], true)
  | written, e :: rest =>
    let buf := serialize true ++ serialize e.entry
    if buf.length + written < maxBytes then
      let r := writeEntries maxBytes (written + buf.length) rest
      (buf ++ r.1, r.2)
    else ([], false)

/-- The bytes of a listing up to its first entry. -/
def listingFront (xid : UInt32) (dirAttr : Except NfsStat3 Fattr3) : Bytes :=
  answer xid .ok (serialize dirAttr.toOption ++ serialize (dirversion dirAttr))

/-- The reply to a listing: the entries that fit, and whether the directory ends with them. -/
def listing (xid : UInt32) (dirAttr : Except NfsStat3 Fattr3) (maxBytes : Nat)
    (result : ReadDirResult) : Bytes :=
  let front := listingFront xid dirAttr
  let r := writeEntries maxBytes front.length result.entries
  front ++ r.1 ++ serialize false ++ serialize (if r.2 then result.isEnd else false)

/-- The cookie that the client sends is not used: every call lists from the beginning. -/
def nfsproc3Readdir (ctx : RpcContext) (xid : UInt32) (input : Bytes) : Proc Bytes := do
  let (args, _) ← (parse input : Proc (Readdir3args × Bytes))
  match ctx.vfs.fhToId args.dir with
  | .error stat => return answer xid stat noAttr
  | .ok dirid =>
    let dirAttr ← getattr dirid
    let estimatedMaxResults := args.dircount / 16
    match ← readdirSimple dirid estimatedMaxResults.toNat with
    | .ok result => return listing xid dirAttr (maxBytesAllowed args.dircount) result
    | .error stat => return answer xid stat (serialize dirAttr.toOption)

end NessieStore.Rpc
