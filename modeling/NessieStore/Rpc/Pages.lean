import NessieStore.Nfs.Paging
import NessieStore.Rpc.Passthrough

/-!
# Listing a directory over the wire

A client lists a directory of the passthrough server by calls of `readdir`, one page after the other:
it sends the last cookie that it has received and stops when it is told that this was all. A page is
what the file system lists, as far as it fits into what the client has room for.

`readdir` does not use the cookie (`readdir_eq`): every page is from the beginning of the listing, and
the client is told the end only if everything fits into one page (`readdir_stays_at_beginning`).
-/

set_option autoImplicit false

namespace NessieStore.Rpc

open Lib
open Nfs (FileId Time World)

/-! ## The client -/

/-- A page, as the client reads it: the verifier, the entries, and whether that was all. -/
def readPage (xid : UInt32) (out : Bytes) : Option (Verf3 × DirList) :=
  match readReply (Res (PostOpAttr × Verf3 × DirList) PostOpAttr) out with
  | some (xid', .ok (.ok (_, verf, list))) => if xid' = xid then some (verf, list) else none
  | _ => none

/-- A client on its way: what it sends next, the pages so far, and whether it was told the end. -/
structure Reading where
  cookie : UInt64
  cookieverf : Verf3
  pages : List (List Entry3)
  done : Bool

def Reading.start : Reading := ⟨0, zeroVerf, [], false⟩

/-- The client has read a page. -/
def Reading.turn (r : Reading) (page : Verf3 × DirList) : Reading :=
  ⟨(page.2.entries.getLast?.map Entry3.cookie).getD r.cookie, page.1, r.pages ++ [page.2.entries],
    page.2.eof⟩

/-- What the client chooses for a call, and the worlds in which its questions are answered, with the
`ctime` of their files. -/
structure PageCall where
  xid : UInt32
  dircount : UInt32
  moments : Nat → World × (FileId → Time)

/-- The passthrough server answers, each question in a world of its own. -/
def answeredAt (sha : Bytes → UInt64) (q : VfsCall) (moments : Nat → World × (FileId → Time)) :
    q.Answer × (Nat → World × (FileId → Time)) :=
  ((q.answered sha (moments 0).2 (moments 0).1).1, fun n => moments (n + 1))

section Client

variable (sha : Bytes → UInt64) (ctx : RpcContext) (dirid : FileId)

/-- The reply to `readdir`. -/
def PageCall.readdir (call : PageCall) (cookie : UInt64) (verf : Verf3) : Except XdrError Bytes :=
  ((nfsproc3Readdir ctx call.xid (serialize (Readdir3args.mk (ctx.vfs.idToFh dirid) cookie verf
    call.dircount))).play (answeredAt sha) call.moments).1

/-- One call of `readdir`. -/
def browse (r : Reading) (call : PageCall) : Option Reading :=
  if r.done then none
  else
    match call.readdir sha ctx dirid r.cookie r.cookieverf with
    | .error _ => none
    | .ok out => (readPage call.xid out).map r.turn

end Client

/-! ## One page -/

theorem length_serialize_fattr (a : Fattr3) : (serialize a).length = 84 := by
  have hfields : serialize a = serialize (a.ftype, a.mode, a.nlink, a.uid, a.gid, a.size, a.used, a.rdev,
      a.fsid, a.fileid, a.atime, a.mtime, a.ctime) := rfl
  have htype : (serialize a.ftype).length = 4 := length_serialize_u32 _
  have htime (t : Time) : (serialize t).length = 8 := by
    rw [show serialize t = serialize t.seconds ++ serialize t.nseconds from rfl, List.length_append,
      length_serialize_u32, length_serialize_u32]
  have hrdev : (serialize a.rdev).length = 8 := by
    rw [show serialize a.rdev = serialize a.rdev.specdata1 ++ serialize a.rdev.specdata2 from rfl,
      List.length_append, length_serialize_u32, length_serialize_u32]
  rw [hfields]
  simp only [serialize_pair, List.length_append, length_serialize_u32, length_serialize_u64, htype,
    htime, hrdev]

/-- The bytes before the first entry, when the attributes of the directory are known. -/
theorem length_listingFront (xid : UInt32) (a : Fattr3) : (listingFront xid (.ok a)).length = 124 := by
  have hverf : (serialize (dirversion (.ok a))).length = 8 := (dirversion (.ok a)).2
  have hstat : (serialize NfsStat3.ok).length = 4 := rfl
  rw [listingFront, answer, List.length_append, List.length_append, List.length_append,
    length_makeSuccessReply, hstat, hverf, show (Except.ok a : Except NfsStat3 Fattr3).toOption =
      some a from rfl, serialize_some, List.length_append, length_serialize_bool,
    length_serialize_fattr]

/-- What the client reads of a listing. -/
theorem readPage_listing (xid : UInt32) (dirAttr : Except NfsStat3 Fattr3) (maxBytes : Nat)
    {result : ReadDirResult} (hfits : ∀ e ∈ result.entries, Fits e.entry) :
    ∃ k, Fills maxBytes (listingFront xid dirAttr).length result.entries k ∧
      readPage xid (listing xid dirAttr maxBytes result) =
        some (dirversion dirAttr, ⟨(result.entries.take k).map DirEntry3.entry,
          decide (k = result.entries.length) && result.isEnd⟩) := by
  obtain ⟨k, hfills, heq⟩ := listing_eq xid dirAttr maxBytes result
  refine ⟨k, hfills, ?_⟩
  have hlist : Fits (dirAttr.toOption, dirversion dirAttr,
      DirList.mk ((result.entries.take k).map DirEntry3.entry)
        (decide (k = result.entries.length) && result.isEnd)) := by
    refine ⟨fits_postOpAttr _, fits_array _, fits_dirList.mpr ?_⟩
    rw [List.forall_mem_map]
    exact fun e he => hfits e (List.mem_of_mem_take he)
  unfold readPage
  rw [heq, readReply_ok hlist]
  exact if_pos rfl

section Calls

variable {sha : Bytes → UInt64} {ctx : RpcContext} {dirid : FileId} {call : PageCall}

/-- The attributes of the directory, as the first question finds them. -/
def PageCall.dirAttr (sha : Bytes → UInt64) (dirid : FileId) (call : PageCall) :
    Except NfsStat3 Fattr3 :=
  ((VfsCall.getattr dirid).answered sha (call.moments 0).2 (call.moments 0).1).1

/-- What the file system lists, from the beginning. -/
def PageCall.listed (sha : Bytes → UInt64) (dirid : FileId) (call : PageCall) (maxEntries : Nat) :
    Except NfsStat3 ReadDirResult :=
  ((VfsCall.readdir dirid 0 maxEntries).answered sha (call.moments 1).2 (call.moments 1).1).1

theorem parse_serialize {δ : Type} [Xdr δ] {a : δ} (h : Fits a) :
    (parse (serialize a) : Proc (δ × Bytes)) = .done (a, []) := by
  unfold parse
  rw [deserialize_whole h]
  rfl

/-- The procedure asks for the attributes and for the entries. -/
theorem play_listing (maxEntries : Nat)
    (f : Except NfsStat3 Fattr3 → Except NfsStat3 ReadDirResult → Proc Bytes) :
    (getattr dirid >>= fun dirAttr => (Dialogue.query (VfsCall.readdir dirid 0 maxEntries) :
      Proc (Except NfsStat3 ReadDirResult)) >>= fun x => f dirAttr x).play (answeredAt sha)
        call.moments =
      (f (call.dirAttr sha dirid) (call.listed sha dirid maxEntries)).play (answeredAt sha)
        fun n => call.moments (n + 1 + 1) := rfl

/-- The cookie is not used. -/
theorem readdir_eq (cookie : UInt64) (verf : Verf3) :
    call.readdir sha ctx dirid cookie verf = .ok
      (match call.listed sha dirid (call.dircount / 16).toNat with
      | .ok result =>
        listing call.xid (call.dirAttr sha dirid) (maxBytesAllowed call.dircount) result
      | .error stat => answer call.xid stat (serialize (call.dirAttr sha dirid).toOption)) := by
  have hargs : Fits (Readdir3args.mk (ctx.vfs.idToFh dirid) cookie verf call.dircount) :=
    ⟨ctx.vfs.fits_idToFh dirid, fits_u64 _, fits_array _, fits_u32 _⟩
  unfold PageCall.readdir nfsproc3Readdir
  rw [parse_serialize hargs, Dialogue.done_bind]
  dsimp only
  rw [ctx.vfs.fhToId_idToFh]
  dsimp only [readdirSimple]
  rw [play_listing]
  cases call.listed sha dirid (call.dircount / 16).toNat <;> rfl

/-- A call with this `dircount` that finds the directory, and this listing of it. -/
structure Finds (sha : Bytes → UInt64) (dirid : FileId) (dircount : UInt32) (result : ReadDirResult)
    (call : PageCall) : Prop where
  count : call.dircount = dircount
  attr : (call.dirAttr sha dirid).isOk = true
  listed : call.listed sha dirid (dircount / 16).toNat = .ok result

/-- So many entries fit into a page, behind the 124 bytes before the first. -/
def FitsPage (dircount : UInt32) (entries : List DirEntry3) (k : Nat) : Prop :=
  Fills (maxBytesAllowed dircount) 124 entries k

/-- Every page is from the beginning of the listing. -/
theorem browse_page {dircount : UInt32} {result : ReadDirResult}
    (hnames : ∀ e ∈ result.entries, e.name.length ≤ 255) (h : Finds sha dirid dircount result call)
    {r r' : Reading} (hstep : browse sha ctx dirid r call = some r') :
    ∃ k, FitsPage dircount result.entries k ∧
      r'.pages = r.pages ++ [(result.entries.take k).map DirEntry3.entry] ∧
      r'.done = (decide (k = result.entries.length) && result.isEnd) := by
  obtain ⟨rfl, hattr, hlisted⟩ := h
  obtain ⟨a, ha⟩ : ∃ a, call.dirAttr sha dirid = .ok a := by
    cases hd : call.dirAttr sha dirid with
    | ok a => exact ⟨a, rfl⟩
    | error e => rw [hd] at hattr; cases hattr
  have hfits : ∀ e ∈ result.entries, Fits e.entry := by
    intro e he
    have hlength := hnames e he
    exact ⟨fits_u64 _, fits_bytes.mpr (by show e.name.length < _; omega), fits_u64 _⟩
  obtain ⟨k, hfills, hread⟩ := readPage_listing call.xid (.ok a) (maxBytesAllowed call.dircount) hfits
  rw [length_listingFront] at hfills
  unfold browse at hstep
  rw [readdir_eq, hlisted, ha] at hstep
  dsimp only at hstep
  rw [hread] at hstep
  split at hstep
  · cases hstep
  · cases hstep
    exact ⟨k, hfills, rfl, rfl⟩

end Calls

/-- However often a client calls `readdir` and whatever cookie it sends, every page is the beginning of
the listing, as far as it fits; and it is told the end only if all of the listing fits and the listing
is the directory. -/
theorem readdir_stays_at_beginning {sha : Bytes → UInt64} {ctx : RpcContext} {dirid : FileId}
    {dircount : UInt32} {result : ReadDirResult} {calls : List PageCall} {r : Reading}
    (hnames : ∀ e ∈ result.entries, e.name.length ≤ 255)
    (h : Run (browse sha ctx dirid) (fun _ call => Finds sha dirid dircount result call) .start calls
      r) :
    (∀ page ∈ r.pages, ∃ k, FitsPage dircount result.entries k ∧
      page = (result.entries.take k).map DirEntry3.entry) ∧
    (r.done = true → FitsPage dircount result.entries result.entries.length ∧ result.isEnd = true) := by
  refine h.keeps (I := fun r : Reading => (∀ page ∈ r.pages, ∃ k, FitsPage dircount result.entries k ∧
      page = (result.entries.take k).map DirEntry3.entry) ∧
    (r.done = true → FitsPage dircount result.entries result.entries.length ∧ result.isEnd = true)) ?_
    ⟨by rintro _ ⟨⟩, by rintro ⟨⟩⟩
  rintro r r' call hfinds ⟨hpages, -⟩ hstep
  obtain ⟨k, hfits, hr', hdone⟩ := browse_page hnames hfinds hstep
  rw [hr', hdone, List.forall_mem_append, List.forall_mem_singleton, Bool.and_eq_true,
    decide_eq_true_iff]
  refine ⟨⟨hpages, k, hfits, rfl⟩, ?_⟩
  rintro ⟨rfl, hend⟩
  exact ⟨hfits, hend⟩

def sampleContext : RpcContext := ⟨passthroughHandles⟩

/-- A call on a directory with two files, whose reply has room for one. -/
def narrowCall : PageCall := ⟨1, 300, fun _ => (Nfs.rootWith Nfs.filesAB, fun _ => ⟨0, 0⟩)⟩

/-- The directory has two entries and all of them are listed; both pages have the first. -/
theorem readdir_stays_at_beginning_twice :
    ∃ r result, Run (browse (fun _ => 0) sampleContext Nfs.rootHandle)
        (fun _ call => Finds (fun _ => 0) Nfs.rootHandle 300 result call) .start
        [narrowCall, narrowCall] r ∧
      result.entries.length = 2 ∧ result.isEnd = true ∧ r.pages.length = 2 ∧ r.done = false ∧
      ∀ page ∈ r.pages, page = (result.entries.take 1).map DirEntry3.entry := by
  obtain ⟨r, hr, hpages, hone, hdone⟩ : ∃ r, run (browse (fun _ => 0) sampleContext Nfs.rootHandle)
      (fun _ _ => True) .start [narrowCall, narrowCall] = some r ∧ r.pages.length = 2 ∧
        (∀ page ∈ r.pages, page.length = 1) ∧ r.done = false := run_exists (by decide +kernel)
  obtain ⟨result, hlisted, htwo, hend, hnames⟩ : ∃ result,
      narrowCall.listed (fun _ => 0) Nfs.rootHandle 18 = .ok result ∧ result.entries.length = 2 ∧
        result.isEnd = true ∧ ∀ e ∈ result.entries, e.name.length ≤ 255 := by
    have hall : ((narrowCall.listed (fun _ => 0) Nfs.rootHandle 18).toOption.any fun result =>
        decide (result.entries.length = 2 ∧ result.isEnd = true ∧
          ∀ e ∈ result.entries, e.name.length ≤ 255)) = true := by decide +kernel
    obtain ⟨result, hresult, hall⟩ := (Option.any_eq_true _ _).mp hall
    exact ⟨result, toOption_eq_some_iff.mp hresult, of_decide_eq_true hall⟩
  have hfinds : Finds (fun _ => 0) Nfs.rootHandle 300 result narrowCall :=
    ⟨rfl, by decide +kernel, hlisted⟩
  have hrun := (run_sound hr).of_labels (P := Finds (fun _ => 0) Nfs.rootHandle 300 result) (by
    simp only [List.forall_mem_cons, List.not_mem_nil, false_implies, implies_true, and_true]
    exact ⟨hfinds, hfinds⟩)
  refine ⟨r, result, hrun, htwo, hend, hpages, hdone, fun page hpage => ?_⟩
  obtain ⟨k, -, hk⟩ := (readdir_stays_at_beginning hnames hrun).1 page hpage
  have hlength := hone page hpage
  rw [hk, List.length_map, List.length_take] at hlength
  rw [hk, show k = 1 by omega]

end NessieStore.Rpc
