import NessieStore.Disk.Settle
import NessieStore.Lib.Run

/-!
# Two stores that are one

`DiskCas` (`nessie-cas-disk`) and `MemCas` (`nessie-backend-mem`) under the same calls, one after the
other, from an empty store on, with the disk opened again in between as often as one likes: they
answer alike (`disk_and_mem_same_store`). The simulation (`Twin`) says that the disk's files are the
memory's entries at their digests' paths, and nothing else.

The two read a source with buffers of their own, so a call has two sequences of reads of one content.
An error of the source is one that `read_to_end` does not retry. Nothing else fails and nobody else
touches the directory. A `LocalCas` in `mem` mode is the map of `MemCas`.
-/

set_option autoImplicit false

namespace NessieStore

open Lib

/-! ## The calls -/

/-- A call on both stores. -/
inductive CasOp
  /-- `name` is the temporary file's. -/
  | put (name : List Char) (disk mem : Reads)
  | putKeyed (name : List Char) (expected : Digest) (disk mem : Reads)
  | has (d : Digest)
  | size (d : Digest)
  | get (d : Digest)
  /-- With the order in which the directories and the table are enumerated. -/
  | iterLocal (disk : List (BlobPath × Bytes)) (mem : List (Digest × Bytes))
  | reclaim (d : Digest)
  | reclaimIfCorrupt (d : Digest)
  /-- `DiskCas::open`, with the order of its listing. -/
  | reopen (listing : List BlobPath)

inductive CasAnswer
  | done
  | digest (d : Digest)
  | bool (b : Bool)
  | size (n : Option Nat)
  | bytes (b : Bytes)
  | blobs (l : List LocalBlob)

variable (H : HashFn)

def DiskCas.serve (c : DiskCas) : CasOp → Except BackendError CasAnswer × DiskCas
  | .put name reads _ => let (r, c) := c.put H name reads; (r.map .digest, c)
  | .putKeyed name expected reads _ =>
    let (r, c) := c.putKeyed H name expected reads; (r.map fun _ => .done, c)
  | .has d => (.ok (.bool (c.has d)), c)
  | .size d => (.ok (.size (c.size d)), c)
  | .get d => ((c.get H d).map .bytes, c)
  | .iterLocal listing _ => (.ok (.blobs (iterLocal listing)), c)
  | .reclaim d => let (r, c) := c.reclaim d; (.ok (.bool r), c)
  | .reclaimIfCorrupt d => let (r, c) := c.reclaimIfCorrupt H d; (r.map .bool, c)
  | .reopen listing =>
    let (r, c) := c.reopen H (listing.map (.file · {})); (r.map fun _ => .done, c)

namespace MemCas

def put (c : LocalCas) (reads : Reads) : Except BackendError Digest × LocalCas :=
  match reads.all with
  | (_, some e) => (.error (.internal ("cas put: reading source failed: " ++ e)), c)
  | (bytes, none) => (.ok (.compute H bytes), c.land (.compute H bytes) bytes)

def putKeyed (c : LocalCas) (expected : Digest) (reads : Reads) :
    Except BackendError Unit × LocalCas :=
  match reads.all with
  | (_, some e) => (.error (.internal ("cas put_keyed: reading source failed: " ++ e)), c)
  | (bytes, none) =>
    if expected.verify H bytes then (.ok (), c.land expected bytes)
    else (.error (mismatch expected), c)

def iterLocal (listing : List (Digest × Bytes)) : List LocalBlob :=
  listing.map fun e => ⟨e.1, e.2.length⟩

def reclaimIfCorrupt (c : LocalCas) (d : Digest) : Bool × LocalCas :=
  match c.blobs.lookup d with
  | some bytes =>
    if d.verify H bytes then (false, c) else (true, { c with blobs := c.blobs.erase d })
  | none => (false, c)

def serve (c : LocalCas) : CasOp → Except BackendError CasAnswer × LocalCas
  | .put _ _ reads => let (r, c) := put H c reads; (r.map .digest, c)
  | .putKeyed _ expected _ reads =>
    let (r, c) := putKeyed H c expected reads; (r.map fun _ => .done, c)
  | .has d => (.ok (.bool (c.has d)), c)
  | .size d => (.ok (.size (c.size d)), c)
  | .get d => ((c.get H d).map .bytes, c)
  | .iterLocal _ listing => (.ok (.blobs (iterLocal listing)), c)
  | .reclaim d => let (r, c) := c.reclaim d; (.ok (.bool r), c)
  | .reclaimIfCorrupt d => let (r, c) := reclaimIfCorrupt H c d; (.ok (.bool r), c)
  | .reopen _ => (.ok .done, c)

end MemCas

/-- The same value, or errors of the same variant; inventories list the same blobs, none twice. -/
def Agree : Except BackendError CasAnswer → Except BackendError CasAnswer → Prop
  | .ok (.blobs l), .ok (.blobs l') =>
    (l.map LocalBlob.digest).Nodup ∧ (l'.map LocalBlob.digest).Nodup ∧ ∀ b, b ∈ l ↔ b ∈ l'
  | .ok a, .ok a' => a = a'
  | .error e, .error e' => e.ctorIdx = e'.ctorIdx
  | _, _ => False

/-- A disk store and a memory store. -/
structure Twins where
  disk : DiskCas
  mem : LocalCas

namespace Twins

def empty : Twins := ⟨.empty, ⟨.mem, ∅, ∅, false⟩⟩

/-- The same call on both. -/
def step (x : Twins) (op : CasOp) : Option Twins :=
  some ⟨(x.disk.serve H op).2, (MemCas.serve H x.mem op).2⟩

/-- The two sources of a call deliver the same, and what is listed is what is there. -/
def Valid (used : Bytes → Prop) (x : Twins) : CasOp → Prop
  | .put _ disk mem | .putKeyed _ _ disk mem => disk.all = mem.all ∧ used disk.all.1
  | .iterLocal disk mem => x.disk.blobs.Lists disk ∧ x.mem.blobs.Lists mem
  | .reopen listing => x.disk.Listing listing
  | _ => True

end Twins

/-! ## The simulation -/

variable {H}

/-- The disk's files are the memory's entries at their digests' paths. -/
structure Twin (H : HashFn) (used : Bytes → Prop) (x : Twins) : Prop where
  kind : x.mem.kind = .mem
  tmp : x.disk.tmp = ∅
  only : ∀ p bytes, x.disk.blobs.lookup p = some bytes → ∃ d : Digest, p = d.path
  same : ∀ d : Digest, x.disk.blobs.lookup d.path = x.mem.blobs.lookup d
  sound : ∀ d bytes, x.mem.blobs.lookup d = some bytes → d.verify H bytes = true ∧ used bytes

namespace Twin

variable {used : Bytes → Prop} {x : Twins}

theorem empty : Twin H used .empty where
  kind := rfl
  tmp := rfl
  only p bytes h := by cases h
  same d := rfl
  sound d bytes h := by cases h

/-- The disk is the `LocalCas` with the memory's entries. -/
theorem represents (h : Twin H used x) : x.disk.Represents { x.mem with kind := .disk } :=
  ⟨rfl, h.same⟩

/-- A body that verifies is landed by both, whether they had it or not. -/
theorem land (hcf : H.CollisionFree used) (h : Twin H used x) {d : Digest} {bytes : Bytes}
    (hv : d.verify H bytes = true) (hu : used bytes) :
    Twin H used ⟨{ x.disk with blobs := x.disk.blobs.insert d.path bytes }, x.mem.land d bytes⟩ := by
  have hmem : ∀ e, (x.mem.land d bytes).blobs.lookup e =
      if e = d then some bytes else x.mem.blobs.lookup e := by
    intro e
    rw [LocalCas.lookup_land, h.kind]
    -- an entry that is left alone has the same bytes
    cases hold : x.mem.blobs.lookup d with
    | none => rfl
    | some old =>
      obtain ⟨hvold, huold⟩ := h.sound d old hold
      rw [Digest.verify_unique hcf huold hu hvold hv]
      rfl
  refine ⟨(LocalCas.land_kind _ _ _).trans h.kind, h.tmp, ?_, ?_, ?_⟩
  · intro p b hp
    dsimp only at hp
    rw [Map.lookup_insert_eq] at hp
    split at hp
    · next hpd => exact ⟨d, hpd⟩
    · exact h.only p b hp
  · intro e
    rw [hmem]
    dsimp only
    rw [Map.lookup_insert_eq, h.same]
    simp only [Digest.path_injective.eq_iff]
  · intro e b hb
    rw [hmem] at hb
    split at hb
    · next hed =>
      cases hb
      rw [hed]
      exact ⟨hv, hu⟩
    · exact h.sound e b hb

theorem erase (h : Twin H used x) (d : Digest) :
    Twin H used ⟨{ x.disk with blobs := x.disk.blobs.erase d.path },
      { x.mem with blobs := x.mem.blobs.erase d }⟩ := by
  refine ⟨h.kind, h.tmp, ?_, (h.represents.erase d).lookup, ?_⟩
  · intro p b hp
    dsimp only at hp
    rw [Map.lookup_erase_eq] at hp
    split at hp
    · cases hp
    · exact h.only p b hp
  · intro e b hb
    dsimp only at hb
    rw [Map.lookup_erase_eq] at hb
    split at hb
    · cases hb
    · exact h.sound e b hb

/-! ### Call by call -/

theorem freshName (h : Twin H used x) (name : List Char) : x.disk.tmp.lookup name = none := by
  rw [h.tmp]
  exact Finmap.lookup_empty name

theorem put (hcf : H.CollisionFree used) (h : Twin H used x) (name : List Char) {disk mem : Reads}
    (hsrc : disk.all = mem.all) (hu : used disk.all.1) :
    Agree (x.disk.serve H (.put name disk mem)).1 (MemCas.serve H x.mem (.put name disk mem)).1 ∧
      Twin H used ⟨(x.disk.serve H (.put name disk mem)).2,
        (MemCas.serve H x.mem (.put name disk mem)).2⟩ := by
  simp only [DiskCas.serve, MemCas.serve, DiskCas.put_eq (h.freshName name), MemCas.put, ← hsrc]
  cases hall : disk.all with
  | mk bytes fault =>
    rw [hall] at hu
    cases fault with
    | some e => exact ⟨rfl, h⟩
    | none =>
      have hv : (Digest.compute H bytes).verify H bytes = true := decide_eq_true rfl
      exact ⟨rfl, h.land hcf hv hu⟩

theorem putKeyed (hcf : H.CollisionFree used) (h : Twin H used x) (name : List Char) (d : Digest)
    {disk mem : Reads} (hsrc : disk.all = mem.all) (hu : used disk.all.1) :
    Agree (x.disk.serve H (.putKeyed name d disk mem)).1
        (MemCas.serve H x.mem (.putKeyed name d disk mem)).1 ∧
      Twin H used ⟨(x.disk.serve H (.putKeyed name d disk mem)).2,
        (MemCas.serve H x.mem (.putKeyed name d disk mem)).2⟩ := by
  simp only [DiskCas.serve, MemCas.serve, DiskCas.putKeyed_eq (h.freshName name), MemCas.putKeyed,
    ← hsrc]
  cases hall : disk.all with
  | mk bytes fault =>
    rw [hall] at hu
    cases fault with
    | some e => exact ⟨rfl, h⟩
    | none =>
      dsimp only
      by_cases hv : d.verify H bytes = true
      · rw [if_pos hv, if_pos hv]
        exact ⟨rfl, h.land hcf hv hu⟩
      · rw [if_neg hv, if_neg hv]
        exact ⟨rfl, h⟩

/-- What is held verifies, so the disk's check passes. -/
theorem get (h : Twin H used x) (d : Digest) : x.disk.get H d = x.mem.get H d := by
  rw [DiskCas.get, LocalCas.get, h.same, h.kind]
  cases hlookup : x.mem.blobs.lookup d with
  | none => rfl
  | some bytes =>
    dsimp only
    rw [if_pos (h.sound d bytes hlookup).1]

theorem reclaim (h : Twin H used x) (d : Digest) :
    (x.disk.reclaim d).1 = (x.mem.reclaim d).1 ∧
      Twin H used ⟨(x.disk.reclaim d).2, (x.mem.reclaim d).2⟩ := by
  rw [DiskCas.reclaim, LocalCas.reclaim, LocalCas.has, LocalCas.size, h.same]
  cases hlookup : x.mem.blobs.lookup d with
  | some bytes => exact ⟨rfl, h.erase d⟩
  | none =>
    have hsame : x.mem.blobs.erase d = x.mem.blobs := Finmap.ext_lookup fun e => by
      rw [Map.lookup_erase_eq]
      by_cases he : e = d
      · rw [if_pos he, he, hlookup]
      · rw [if_neg he]
    refine ⟨rfl, ?_⟩
    dsimp only
    rw [hsame]
    exact h

/-- Nothing held is corrupt, so nothing goes. -/
theorem reclaimIfCorrupt (h : Twin H used x) (d : Digest) :
    x.disk.reclaimIfCorrupt H d = (.ok false, x.disk) ∧
      MemCas.reclaimIfCorrupt H x.mem d = (false, x.mem) := by
  rw [DiskCas.reclaimIfCorrupt, DiskCas.verify, MemCas.reclaimIfCorrupt, h.same]
  cases hlookup : x.mem.blobs.lookup d with
  | none => exact ⟨rfl, rfl⟩
  | some bytes =>
    dsimp only
    rw [(h.sound d bytes hlookup).1]
    exact ⟨rfl, rfl⟩

/-- Every file is a blob's, so its names spell the digest back. -/
theorem iterLocal_paths {listing : List (BlobPath × Bytes)}
    (honly : ∀ f ∈ listing, ∃ d : Digest, f.1 = d.path) :
    (DiskCas.iterLocal listing).map (fun b => b.digest.path) = listing.map Prod.fst := by
  induction listing with
  | nil => rfl
  | cons f listing ih =>
    obtain ⟨⟨d, hd⟩, hrest⟩ := List.forall_mem_cons.mp honly
    have hdigest : f.1.digest? = some d := by rw [hd, Digest.digest?_path]
    rw [DiskCas.iterLocal, List.filterMap_cons, hdigest]
    dsimp only [Option.map_some]
    rw [List.map_cons, List.map_cons, ← ih hrest, hd]
    rfl

theorem iterLocal (h : Twin H used x) {disk : List (BlobPath × Bytes)}
    {mem : List (Digest × Bytes)} (hdisk : x.disk.blobs.Lists disk) (hmem : x.mem.blobs.Lists mem) :
    Agree (.ok (.blobs (DiskCas.iterLocal disk))) (.ok (.blobs (MemCas.iterLocal mem))) := by
  have honly : ∀ f ∈ disk, ∃ d : Digest, f.1 = d.path :=
    fun f hf => h.only f.1 f.2 ((hdisk.2 f.1 f.2).mp hf)
  refine ⟨?_, ?_, ?_⟩
  · have hpaths : ((DiskCas.iterLocal disk).map (fun b => b.digest.path)).Nodup := by
      rw [iterLocal_paths honly]
      exact hdisk.1
    refine List.Nodup.of_map Digest.path ?_
    rwa [List.map_map]
  · have hdigests : (MemCas.iterLocal mem).map LocalBlob.digest = mem.map Prod.fst := by
      rw [MemCas.iterLocal, List.map_map]
      rfl
    rw [hdigests]
    exact hmem.1
  · intro b
    rw [DiskCas.iterLocal, MemCas.iterLocal, List.mem_filterMap, List.mem_map]
    constructor
    · rintro ⟨⟨p, bytes⟩, hf, hb⟩
      obtain ⟨d, hd, rfl⟩ := Option.map_eq_some_iff.mp hb
      obtain ⟨e, he⟩ := honly _ hf
      dsimp only at hd he
      rw [he, Digest.digest?_path] at hd
      cases hd
      have hlookup := (hdisk.2 p bytes).mp hf
      rw [he, h.same] at hlookup
      exact ⟨(d, bytes), (hmem.2 d bytes).mpr hlookup, rfl⟩
    · rintro ⟨⟨d, bytes⟩, he, rfl⟩
      have hlookup := (hmem.2 d bytes).mp he
      rw [← h.same] at hlookup
      refine ⟨(d.path, bytes), (hdisk.2 d.path bytes).mpr hlookup, ?_⟩
      dsimp only
      rw [Digest.digest?_path]
      rfl

/-- There is no sibling to settle. -/
theorem sweep {c : DiskCas} {listing : List BlobPath}
    (honly : ∀ p ∈ listing, ∃ d : Digest, p = d.path) :
    DiskCas.settleLegacySiblings H (listing.map (.file · {})) c = (.ok (), c) := by
  induction listing with
  | nil => rfl
  | cons p listing ih =>
    obtain ⟨⟨d, hd⟩, hrest⟩ := List.forall_mem_cons.mp honly
    rw [List.map_cons, DiskCas.settleLegacySiblings, hd, BlobPath.sibling?_path]
    exact ih hrest

theorem reopen (h : Twin H used x) {listing : List BlobPath} (hlist : x.disk.Listing listing) :
    x.disk.reopen H (listing.map (.file · {})) = (.ok (), x.disk) := by
  rw [DiskCas.reopen, ← h.tmp]
  refine sweep fun p hp => ?_
  obtain ⟨bytes, hbytes⟩ := (hlist.2 p).mp hp
  exact h.only p bytes hbytes

/-- The step lemma: the two answer alike, and stay twins. -/
theorem serve (hcf : H.CollisionFree used) (h : Twin H used x) {op : CasOp}
    (hvalid : x.Valid used op) :
    Agree (x.disk.serve H op).1 (MemCas.serve H x.mem op).1 ∧
      Twin H used ⟨(x.disk.serve H op).2, (MemCas.serve H x.mem op).2⟩ := by
  cases op with
  | put name disk mem => exact h.put hcf name hvalid.1 hvalid.2
  | putKeyed name d disk mem => exact h.putKeyed hcf name d hvalid.1 hvalid.2
  | has d =>
    refine ⟨?_, h⟩
    show CasAnswer.bool (x.disk.has d) = CasAnswer.bool (x.mem.has d)
    rw [h.represents.has]
    rfl
  | size d =>
    refine ⟨?_, h⟩
    show CasAnswer.size (x.disk.size d) = CasAnswer.size (x.mem.size d)
    rw [h.represents.size]
    rfl
  | get d =>
    refine ⟨?_, h⟩
    show Agree ((x.disk.get H d).map .bytes) ((x.mem.get H d).map .bytes)
    rw [h.get]
    cases x.mem.get H d with
    | ok bytes => exact rfl
    | error e => exact rfl
  | iterLocal disk mem => exact ⟨h.iterLocal hvalid.1 hvalid.2, h⟩
  | reclaim d =>
    obtain ⟨hanswer, htwin⟩ := h.reclaim d
    refine ⟨?_, htwin⟩
    show CasAnswer.bool (x.disk.reclaim d).1 = CasAnswer.bool (x.mem.reclaim d).1
    rw [hanswer]
  | reclaimIfCorrupt d =>
    obtain ⟨hdisk, hmem⟩ := h.reclaimIfCorrupt d
    simp only [DiskCas.serve, MemCas.serve, hdisk, hmem]
    exact ⟨rfl, h⟩
  | reopen listing =>
    simp only [DiskCas.serve, MemCas.serve, h.reopen hvalid]
    exact ⟨rfl, h⟩

end Twin

/-- Whatever the calls, a disk store and a memory store that started empty give the same answers, and
the disk's `tmp` is empty between them. -/
theorem disk_and_mem_same_store {used : Bytes → Prop} (hcf : H.CollisionFree used)
    {ops : List CasOp} {x : Twins} (hrun : Run (Twins.step H) (Twins.Valid used) .empty ops x) :
    x.disk.tmp = ∅ ∧ ∀ op, x.Valid used op →
      Agree (x.disk.serve H op).1 (MemCas.serve H x.mem op).1 := by
  have htwin : Twin H used x := by
    refine hrun.keeps (I := Twin H used) ?_ .empty
    intro y z op hvalid hy hstep
    cases hstep
    exact (hy.serve hcf hvalid).2
  exact ⟨htwin.tmp, fun op hvalid => (htwin.serve hcf hvalid).1⟩

/-- A `put` read in two chunks by the one and in one by the other, and a keyed write under SHA-256
whose source breaks off: what is read back is the same. -/
theorem disk_and_mem_same_store_put :
    ∃ x, Run (Twins.step .short) (Twins.Valid fun b => b.length < 32) .empty
        [.put "7-0".toList [.ok [1], .ok [2]] [.ok [1, 2]],
          .putKeyed "7-1".toList (.computeWith .short .sha256 [3]) [.ok [3], .error "reset"]
            [.ok [3], .error "reset"]] x ∧
      (x.disk.serve .short (.get (.compute .short [1, 2]))).1.isOk = true ∧
      Agree (x.disk.serve .short (.get (.compute .short [1, 2]))).1
        (MemCas.serve .short x.mem (.get (.compute .short [1, 2]))).1 := by
  have hrun : Run (Twins.step .short) (Twins.Valid fun b => b.length < 32) .empty
      [.put "7-0".toList [.ok [1], .ok [2]] [.ok [1, 2]],
        .putKeyed "7-1".toList (.computeWith .short .sha256 [3]) [.ok [3], .error "reset"]
          [.ok [3], .error "reset"]] _ :=
    .cons ⟨rfl, by decide⟩ rfl (.cons ⟨rfl, by decide⟩ rfl (.nil _))
  have hsame := disk_and_mem_same_store HashFn.short_collisionFree hrun
  exact ⟨_, hrun, by decide +kernel, hsame.2 (.get (.compute .short [1, 2])) trivial⟩

end NessieStore
