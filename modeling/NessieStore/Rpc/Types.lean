import NessieStore.Nfs.Passthrough
import NessieStore.Rpc.Message

/-!
# The types of NFS version 3

What the arguments and results of the procedures are made of (`nessie-nfsserve`, `nfs.rs`). A handle
is opaque bytes, and so is a name. `sattr3` and `nfstime3` are the ones that the passthrough server
works with.
-/

set_option autoImplicit false

namespace NessieStore.Rpc

open Lib
open Nfs (Time)

inductive NfsStat3
  | ok
  | perm
  | noent
  | io
  | nxio
  | acces
  | exist
  | xdev
  | nodev
  | notdir
  | isdir
  | inval
  | fbig
  | nospc
  | rofs
  | mlink
  | nametoolong
  | notempty
  | dquot
  | stale
  | remote
  | badhandle
  | notSync
  | badCookie
  | notsupp
  | toosmall
  | serverfault
  | badtype
  | jukebox
deriving DecidableEq

def NfsStat3.code : NfsStat3 → UInt32
  | ok => 0
  | perm => 1
  | noent => 2
  | io => 5
  | nxio => 6
  | acces => 13
  | exist => 17
  | xdev => 18
  | nodev => 19
  | notdir => 20
  | isdir => 21
  | inval => 22
  | fbig => 27
  | nospc => 28
  | rofs => 30
  | mlink => 31
  | nametoolong => 63
  | notempty => 66
  | dquot => 69
  | stale => 70
  | remote => 71
  | badhandle => 10001
  | notSync => 10002
  | badCookie => 10003
  | notsupp => 10004
  | toosmall => 10005
  | serverfault => 10006
  | badtype => 10007
  | jukebox => 10008

instance : Xdr NfsStat3 where
  codec := enumCodec "nfsstat3"
    [.ok, .perm, .noent, .io, .nxio, .acces, .exist, .xdev, .nodev, .notdir, .isdir, .inval, .fbig,
      .nospc, .rofs, .mlink, .nametoolong, .notempty, .dquot, .stale, .remote, .badhandle, .notSync,
      .badCookie, .notsupp, .toosmall, .serverfault, .badtype, .jukebox]
    NfsStat3.code (by rintro ⟨⟩ <;> rfl)

inductive Ftype3
  | reg
  | dir
  | blk
  | chr
  | lnk
  | sock
  | fifo
deriving DecidableEq

def Ftype3.code : Ftype3 → UInt32
  | reg => 1
  | dir => 2
  | blk => 3
  | chr => 4
  | lnk => 5
  | sock => 6
  | fifo => 7

instance : Xdr Ftype3 where
  codec := enumCodec "ftype3" [.reg, .dir, .blk, .chr, .lnk, .sock, .fifo] Ftype3.code
    (by rintro ⟨⟩ <;> rfl)

structure Specdata3 where
  specdata1 : UInt32
  specdata2 : UInt32
deriving DecidableEq

instance : Xdr Specdata3 where
  codec := structCodec (fun s => (s.specdata1, s.specdata2)) (fun f => ⟨f.1, f.2⟩) fun _ => rfl

/-- `nfs_fh3`: a handle as the client sees it. -/
abbrev NfsFh3 := Bytes

/-- `filename3` and `nfspath3`. -/
abbrev NfsString := Bytes

/-- `cookieverf3`, `createverf3` and `writeverf3`. -/
abbrev Verf3 := ByteArr 8

def zeroVerf : Verf3 := ⟨[0, 0, 0, 0, 0, 0, 0, 0], rfl⟩

/-- `nfstime3`. -/
instance : Xdr Time where
  codec := structCodec (fun t => (t.seconds, t.nseconds)) (fun f => ⟨f.1, f.2⟩) fun _ => rfl

@[simp] theorem fits_time (t : Time) : Fits t := ⟨fits_u32 _, fits_u32 _⟩

structure Fattr3 where
  ftype : Ftype3
  mode : UInt32
  nlink : UInt32
  uid : UInt32
  gid : UInt32
  size : UInt64
  used : UInt64
  rdev : Specdata3
  fsid : UInt64
  fileid : UInt64
  atime : Time
  mtime : Time
  ctime : Time
deriving DecidableEq

instance : Xdr Fattr3 where
  codec := structCodec
    (fun a => (a.ftype, a.mode, a.nlink, a.uid, a.gid, a.size, a.used, a.rdev, a.fsid, a.fileid,
      a.atime, a.mtime, a.ctime))
    (fun f => ⟨f.1, f.2.1, f.2.2.1, f.2.2.2.1, f.2.2.2.2.1, f.2.2.2.2.2.1, f.2.2.2.2.2.2.1,
      f.2.2.2.2.2.2.2.1, f.2.2.2.2.2.2.2.2.1, f.2.2.2.2.2.2.2.2.2.1, f.2.2.2.2.2.2.2.2.2.2.1,
      f.2.2.2.2.2.2.2.2.2.2.2.1, f.2.2.2.2.2.2.2.2.2.2.2.2⟩)
    fun _ => rfl

/-- `post_op_attr`. -/
abbrev PostOpAttr := Option Fattr3

/-! ## What fits -/

@[simp] theorem fits_fattr (a : Fattr3) : Fits a :=
  ⟨trivial, fits_u32 _, fits_u32 _, fits_u32 _, fits_u32 _, fits_u64 _, fits_u64 _,
    ⟨fits_u32 _, fits_u32 _⟩, fits_u64 _, fits_u64 _, fits_time _, fits_time _, fits_time _⟩

@[simp] theorem fits_postOpAttr (a : PostOpAttr) : Fits a := fun x _ => fits_fattr x

@[simp] theorem fits_stat (s : NfsStat3) : Fits s := trivial

end NessieStore.Rpc
