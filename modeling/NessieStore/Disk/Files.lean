import NessieStore.Backend.Local

/-!
# The files of a `DiskCas`

`DiskCas` (`nessie-cas-disk`) as the files under its root: `tmp/<name>`, where a write streams its
source, and `<algo>/<hex[0..2]>/<hex[2..]>`, where a rename lands it. A directory is what lies in it:
one that is missing and one that is empty list the same. A listing is any order of the files
(`Map.Lists`); the source groups them by algorithm and shard.

The methods are written as the source has them, with every call of the file system going through but
where a fault is named (`Disk.Settle`). `Represents` is the connection to `Backend.Local`: the blobs
of a `LocalCas` are the files at their digests' paths, and the methods of the two agree after any calls
(`files_answer_as_blobs`).
-/

set_option autoImplicit false

namespace NessieStore

open Lib

/-! ## Names -/

/-- `<root>/<algo>/<shard>/<file>`. -/
structure BlobPath where
  algo : DigestAlgo
  shard : List Char
  file : List Char
deriving DecidableEq

/-- The text behind the algorithm. -/
def Digest.hex (d : Digest) : List Char := (splitOnce ':' d.toText).elim [] Prod.snd

/-- `DiskCas::path`. -/
def Digest.path (d : Digest) : BlobPath := ⟨d.algo, d.hex.take 2, d.hex.drop 2⟩

/-- The name of a copy that an earlier release took aside: `n` is a number. -/
def Digest.sibling (d : Digest) (n : List Char) : BlobPath :=
  { d.path with file := d.path.file ++ ".reclaim".toList ++ n }

namespace BlobPath

/-- The digest that a file's names spell. -/
def digest? (p : BlobPath) : Option Digest :=
  (Digest.ofText (p.algo.name ++ ':' :: (p.shard ++ p.file))).toOption

/-- The digest of a legacy sibling. -/
def sibling? (p : BlobPath) : Option Digest :=
  match rsplitOnce ".reclaim".toList p.file with
  | none => none
  | some (rest, n) =>
    if n.isEmpty || !n.all Char.isDigit then none
    else (Digest.ofText (p.algo.name ++ ':' :: (p.shard ++ rest))).toOption

end BlobPath

namespace Digest

theorem hex_eq (d : Digest) : d.hex = Hex.encode d.bytes := by
  unfold hex toText
  rw [splitOnce_append d.algo.colon_notMem_name]
  rfl

theorem toText_eq (d : Digest) : d.algo.name ++ ':' :: (d.path.shard ++ d.path.file) = d.toText := by
  rw [path, List.take_append_drop, hex_eq]
  rfl

/-- The names of a blob's file spell its digest. -/
theorem digest?_path (d : Digest) : d.path.digest? = some d := by
  rw [BlobPath.digest?]
  have htext : d.path.algo.name ++ ':' :: (d.path.shard ++ d.path.file) = d.toText := toText_eq d
  rw [htext, ofText_toText]
  rfl

theorem path_injective : Function.Injective path := by
  intro d d' h
  have hd := digest?_path d
  rw [h, digest?_path] at hd
  exact (Option.some.inj hd).symm

end Digest

/-! ### No dot in a hex name -/

theorem Digest.dot_notMem_file (d : Digest) : '.' ∉ d.path.file := by
  intro h
  have hmem := List.mem_of_mem_drop h
  rw [Digest.hex_eq] at hmem
  exact Hex.notMem_encode (by decide) _ hmem

theorem dot_notMem_digits {n : List Char} (h : n.all Char.isDigit = true) : '.' ∉ n := by
  intro hmem
  have hdigit := List.all_eq_true.mp h _ hmem
  cases hdigit

namespace BlobPath

/-- A blob's file is no sibling. -/
theorem sibling?_path (d : Digest) : d.path.sibling? = none := by
  have hsplit : rsplitOnce ".reclaim".toList d.path.file = none :=
    rsplitOnce_of_notMem _ d.dot_notMem_file
  rw [sibling?, hsplit]

/-- A sibling's name spells its digest. -/
theorem sibling?_sibling (d : Digest) {n : List Char} (hne : n ≠ [])
    (hdigits : n.all Char.isDigit = true) : (d.sibling n).sibling? = some d := by
  have hsplit : rsplitOnce ".reclaim".toList (d.sibling n).file = some (d.path.file, n) :=
    rsplitOnce_append (by decide) (dot_notMem_digits hdigits)
  have htext : (d.sibling n).algo.name ++ ':' :: ((d.sibling n).shard ++ d.path.file) = d.toText :=
    d.toText_eq
  rw [sibling?, hsplit]
  dsimp only
  rw [htext, Digest.ofText_toText, hdigits]
  have hempty : n.isEmpty = false := by simpa using hne
  rw [hempty]
  rfl

end BlobPath

/-! ## The store -/

/-- What lies under the root of a store. -/
structure DiskCas where
  tmp : Map (List Char) Bytes
  blobs : Map BlobPath Bytes

/-- What a source answers, read for read: bytes, none at its end, or an error. -/
abbrev Reads := List (Except String Bytes)

namespace DiskCas

variable (H : HashFn)

def empty : DiskCas := ⟨∅, ∅⟩

/-! ### Reading -/

def size (c : DiskCas) (d : Digest) : Option Nat := (c.blobs.lookup d.path).map List.length

def has (c : DiskCas) (d : Digest) : Bool := (c.size d).isSome

def get (c : DiskCas) (d : Digest) : Except BackendError Bytes :=
  match c.blobs.lookup d.path with
  | none => .error (.blobNotFound d)
  | some bytes =>
    if d.verify H bytes then .ok bytes
    else .error (.internal (String.ofList ("corrupt blob ".toList ++ d.toText)))

/-- `verify`, of which the read may fail. -/
def verify (c : DiskCas) (d : Digest) (fault : Option String) : Except BackendError Bool :=
  match fault with
  | some e => .error (ioErr "read blob" e)
  | none =>
    match c.blobs.lookup d.path with
    | none => .error (.blobNotFound d)
    | some bytes => .ok (d.verify H bytes)

/-- `iter_local` over what the directories list: a name that is no digest's is skipped. -/
def iterLocal (listing : List (BlobPath × Bytes)) : List LocalBlob :=
  listing.filterMap fun f => f.1.digest?.map fun d => ⟨d, f.2.length⟩

/-! ### Removing -/

def reclaim (c : DiskCas) (d : Digest) : Bool × DiskCas :=
  match c.blobs.lookup d.path with
  | some _ => (true, { c with blobs := c.blobs.erase d.path })
  | none => (false, c)

def reclaimIfCorrupt (c : DiskCas) (d : Digest) : Except BackendError Bool × DiskCas :=
  match c.verify H d none with
  | .ok false => (.ok true, { c with blobs := c.blobs.erase d.path })
  | .ok true => (.ok false, c)
  | .error (.blobNotFound _) => (.ok false, c)
  | .error e => (.error e, c)

/-! ### Writing -/

/-- The loop of `write_tmp`: what it has hashed, and the file it appends to. -/
def stream (name : List Char) : Reads → Bytes → DiskCas → Except BackendError Bytes × DiskCas
  | [], hashed, c => (.ok hashed, c)
  | .error e :: _, _, c => (.error (ioErr "read source" e), c)
  | .ok chunk :: rest, hashed, c =>
    if chunk = [] then (.ok hashed, c)
    else
      stream name rest (hashed ++ chunk)
        { c with tmp := c.tmp.insert name ((c.tmp.lookup name).getD [] ++ chunk) }

/-- Stream the source into a fresh temporary file; a failure takes the file away again. -/
def writeTmp (c : DiskCas) (name : List Char) (algo : DigestAlgo) (reads : Reads) :
    Except BackendError Digest × DiskCas :=
  match stream name reads [] { c with tmp := c.tmp.insert name [] } with
  | (.ok hashed, c) => (.ok (Digest.computeWith H algo hashed), c)
  | (.error e, c) => (.error e, { c with tmp := c.tmp.erase name })

/-- Rename the temporary file into place. -/
def commit (c : DiskCas) (name : List Char) (d : Digest) : Except BackendError Unit × DiskCas :=
  match c.tmp.lookup name with
  | some bytes => (.ok (), ⟨c.tmp.erase name, c.blobs.insert d.path bytes⟩)
  | none => (.error (ioErr "commit" "No such file or directory"), c)

def put (c : DiskCas) (name : List Char) (reads : Reads) : Except BackendError Digest × DiskCas :=
  match c.writeTmp H name .default reads with
  | (.error e, c) => (.error e, c)
  | (.ok d, c) =>
    match c.commit name d with
    | (.ok _, c) => (.ok d, c)
    | (.error e, c) => (.error e, c)

def putKeyed (c : DiskCas) (name : List Char) (expected : Digest) (reads : Reads) :
    Except BackendError Unit × DiskCas :=
  match c.writeTmp H name expected.algo reads with
  | (.error e, c) => (.error e, c)
  | (.ok actual, c) =>
    if actual ≠ expected then (.error (mismatch expected), { c with tmp := c.tmp.erase name })
    else c.commit name expected

end DiskCas

/-! ## What a write leaves -/

/-- What a source delivers, whatever the size of the reads: its bytes, and the error that cut it
off. -/
def Reads.all : Reads → Bytes × Option String
  | [] => ([], none)
  | .error e :: _ => ([], some e)
  | .ok chunk :: rest =>
    if chunk = [] then ([], none) else (chunk ++ (Reads.all rest).1, (Reads.all rest).2)

namespace DiskCas

variable {H : HashFn}

/-- The loop hashes what it writes, and writes what the source delivers. -/
theorem stream_eq (name : List Char) (reads : Reads) (hashed : Bytes) (c : DiskCas) :
    stream name reads hashed { c with tmp := c.tmp.insert name hashed } =
      (match reads.all.2 with
        | none => .ok (hashed ++ reads.all.1)
        | some e => .error (ioErr "read source" e),
      { c with tmp := c.tmp.insert name (hashed ++ reads.all.1) }) := by
  induction reads generalizing hashed with
  | nil => simp [stream, Reads.all]
  | cons read rest ih =>
    cases read with
    | error e => simp [stream, Reads.all]
    | ok chunk =>
      rw [stream, Reads.all]
      by_cases hend : chunk = []
      · rw [if_pos hend, if_pos hend]
        simp
      · rw [if_neg hend, if_neg hend]
        have hrest := ih (hashed ++ chunk)
        simp only [Finmap.lookup_insert, Option.getD_some, Finmap.insert_insert]
        rw [hrest, List.append_assoc]

theorem erase_insert (tmp : Map (List Char) Bytes) (name : List Char) (file : Bytes) :
    (tmp.insert name file).erase name = tmp.erase name :=
  Finmap.ext_lookup fun other => by
    rw [Map.lookup_erase_eq, Map.lookup_erase_eq, Map.lookup_insert_eq]
    by_cases hother : other = name
    · rw [if_pos hother, if_pos hother]
    · rw [if_neg hother, if_neg hother, if_neg hother]

theorem erase_new {tmp : Map (List Char) Bytes} {name : List Char} (hname : tmp.lookup name = none) :
    tmp.erase name = tmp :=
  Finmap.ext_lookup fun other => by
    rw [Map.lookup_erase_eq]
    split
    · next hother => rw [hother, hname]
    · rfl

/-- A write either has the whole source in its file, or has left none. -/
theorem writeTmp_eq (c : DiskCas) (name : List Char) (algo : DigestAlgo) (reads : Reads) :
    c.writeTmp H name algo reads = match reads.all.2 with
      | none => (.ok (Digest.computeWith H algo reads.all.1),
        { c with tmp := c.tmp.insert name reads.all.1 })
      | some e => (.error (ioErr "read source" e), { c with tmp := c.tmp.erase name }) := by
  rw [writeTmp, stream_eq]
  cases reads.all.2 with
  | none => rfl
  | some e =>
    dsimp only
    rw [erase_insert]

theorem commit_eq (c : DiskCas) (name : List Char) (d : Digest) (bytes : Bytes) :
    ({ c with tmp := c.tmp.insert name bytes } : DiskCas).commit name d =
      (.ok (), ⟨c.tmp.erase name, c.blobs.insert d.path bytes⟩) := by
  rw [commit]
  dsimp only
  rw [Finmap.lookup_insert]
  dsimp only
  rw [erase_insert]

/-- `put` in one piece. -/
theorem put_eq {c : DiskCas} {name : List Char} (hname : c.tmp.lookup name = none) (reads : Reads) :
    c.put H name reads = match reads.all.2 with
      | none => (.ok (Digest.compute H reads.all.1),
        { c with blobs := c.blobs.insert (Digest.compute H reads.all.1).path reads.all.1 })
      | some e => (.error (ioErr "read source" e), c) := by
  rw [put, writeTmp_eq]
  cases reads.all.2 with
  | none =>
    dsimp only
    rw [commit_eq, erase_new hname]
    rfl
  | some e =>
    dsimp only
    rw [erase_new hname]

/-- `put_keyed` in one piece, whatever lies in `tmp`. -/
theorem putKeyed_over (c : DiskCas) (name : List Char) (d : Digest) (reads : Reads) :
    c.putKeyed H name d reads = match reads.all.2 with
      | none =>
        if d.verify H reads.all.1 then
          (.ok (), ⟨c.tmp.erase name, c.blobs.insert d.path reads.all.1⟩)
        else (.error (mismatch d), { c with tmp := c.tmp.erase name })
      | some e => (.error (ioErr "read source" e), { c with tmp := c.tmp.erase name }) := by
  rw [putKeyed, writeTmp_eq]
  cases reads.all.2 with
  | none =>
    dsimp only
    by_cases hv : Digest.computeWith H d.algo reads.all.1 = d
    · rw [if_neg (not_not.mpr hv), commit_eq, Digest.verify, if_pos (decide_eq_true hv)]
    · rw [if_pos hv, erase_insert, Digest.verify, decide_eq_false hv]
      rfl
  | some e => rfl

/-- `put_keyed` under a fresh name. -/
theorem putKeyed_eq {c : DiskCas} {name : List Char} (hname : c.tmp.lookup name = none)
    (d : Digest) (reads : Reads) :
    c.putKeyed H name d reads = match reads.all.2 with
      | none =>
        if d.verify H reads.all.1 then
          (.ok (), { c with blobs := c.blobs.insert d.path reads.all.1 })
        else (.error (mismatch d), c)
      | some e => (.error (ioErr "read source" e), c) := by
  rw [putKeyed_over, erase_new hname]

end DiskCas

/-! ## The store as a map of blobs -/

/-- The blobs of `l` are the files at their digests' paths. -/
structure DiskCas.Represents (c : DiskCas) (l : LocalCas) : Prop where
  kind : l.kind = .disk
  lookup : ∀ d : Digest, c.blobs.lookup d.path = l.blobs.lookup d

namespace DiskCas.Represents

variable {H : HashFn} {c : DiskCas} {l : LocalCas}

theorem size (h : c.Represents l) (d : Digest) : c.size d = l.size d := by
  rw [DiskCas.size, h.lookup]
  rfl

theorem has (h : c.Represents l) (d : Digest) : c.has d = l.has d := by
  rw [DiskCas.has, h.size]
  rfl

theorem get (h : c.Represents l) (d : Digest) : c.get H d = l.get H d := by
  cases hd : l.blobs.lookup d with
  | none => simp only [DiskCas.get, LocalCas.get, h.lookup, hd]
  | some bytes => simp only [DiskCas.get, LocalCas.get, h.lookup, hd, h.kind]

theorem verify (h : c.Represents l) (d : Digest) : c.verify H d none = l.verify H d := by
  cases hd : l.blobs.lookup d with
  | none => simp only [DiskCas.verify, LocalCas.verify, h.lookup, hd]
  | some bytes => simp only [DiskCas.verify, LocalCas.verify, h.lookup, hd, h.kind]

/-- A file renamed into place is a landed blob. -/
theorem land (h : c.Represents l) (d : Digest) (bytes : Bytes) :
    ({ c with blobs := c.blobs.insert d.path bytes } : DiskCas).Represents (l.land d bytes) where
  kind := by rw [LocalCas.land_kind, h.kind]
  lookup e := by
    rw [LocalCas.lookup_land_disk h.kind, Map.lookup_insert_eq, h.lookup]
    simp only [Digest.path_injective.eq_iff]

theorem erase (h : c.Represents l) (d : Digest) :
    ({ c with blobs := c.blobs.erase d.path } : DiskCas).Represents
      { l with blobs := l.blobs.erase d } where
  kind := h.kind
  lookup e := by
    rw [Map.lookup_erase_eq, Map.lookup_erase_eq, h.lookup]
    simp only [Digest.path_injective.eq_iff]

theorem reclaim (h : c.Represents l) (d : Digest) :
    (c.reclaim d).1 = (l.reclaim d).1 ∧ (c.reclaim d).2.Represents (l.reclaim d).2 := by
  have herase := h.erase d
  rw [DiskCas.reclaim, LocalCas.reclaim, LocalCas.has, LocalCas.size, h.lookup]
  cases hlookup : l.blobs.lookup d with
  | some bytes => exact ⟨rfl, herase⟩
  | none =>
    refine ⟨rfl, h.kind, fun e => ?_⟩
    have hsame := herase.lookup e
    rw [Map.lookup_erase_eq] at hsame
    rw [← hsame]
    by_cases he : e.path = d.path
    · rw [if_pos he, he, h.lookup, hlookup]
    · rw [if_neg he]

end DiskCas.Represents

/-! ## One call after the other -/

/-- What changes the files of a store: calls, and damage done from outside. -/
inductive DiskAct
  | putKeyed (name : List Char) (expected : Digest) (reads : Reads)
  | reclaim (d : Digest)
  | reclaimIfCorrupt (d : Digest)
  | damage (d : Digest) (bytes : Bytes)

variable (H : HashFn)

def DiskCas.act (c : DiskCas) : DiskAct → DiskCas
  | .putKeyed name expected reads => (c.putKeyed H name expected reads).2
  | .reclaim d => (c.reclaim d).2
  | .reclaimIfCorrupt d => (c.reclaimIfCorrupt H d).2
  | .damage d bytes => { c with blobs := c.blobs.insert d.path bytes }

/-- The same to a map of blobs: what verifies lands, and what does not may be reclaimed. -/
def LocalCas.act (l : LocalCas) : DiskAct → LocalCas
  | .putKeyed _ expected reads =>
    if reads.all.2 = none ∧ expected.verify H reads.all.1 then l.land expected reads.all.1 else l
  | .reclaim d => (l.reclaim d).2
  | .reclaimIfCorrupt d => if l.verify H d = .ok false then (l.reclaim d).2 else l
  | .damage d bytes => l.land d bytes

theorem DiskCas.Represents.act {c : DiskCas} {l : LocalCas} (h : c.Represents l) (a : DiskAct) :
    (c.act H a).Represents (l.act H a) := by
  cases a with
  | putKeyed name d reads =>
    have hlanded := h.land d reads.all.1
    rw [DiskCas.act, LocalCas.act, putKeyed_over]
    cases reads.all.2 with
    | some e => exact ⟨h.kind, h.lookup⟩
    | none =>
      by_cases hv : d.verify H reads.all.1 = true
      · simpa only [hv, true_and, if_true] using ⟨hlanded.kind, hlanded.lookup⟩
      · simpa only [hv, and_false, if_false] using ⟨h.kind, h.lookup⟩
  | reclaim d => exact (h.reclaim d).2
  | reclaimIfCorrupt d =>
    rw [DiskCas.act, LocalCas.act, reclaimIfCorrupt, ← h.verify]
    split
    · next hbad =>
      rw [if_pos hbad]
      exact h.erase d
    all_goals
      next hother =>
      rw [if_neg (by simp [hother])]
      exact h
  | damage d bytes => exact h.land d bytes

/-- Whatever calls were made and whatever was damaged, the files answer as the map of blobs does. -/
theorem files_answer_as_blobs (acts : List DiskAct) (d : Digest) :
    let c := acts.foldl (DiskCas.act H) .empty
    let l := acts.foldl (LocalCas.act H) ⟨.disk, ∅, ∅, false⟩
    c.size d = l.size d ∧ c.has d = l.has d ∧ c.get H d = l.get H d ∧
      c.verify H d none = l.verify H d ∧ (c.reclaim d).1 = (l.reclaim d).1 := by
  have hrun {c : DiskCas} {l : LocalCas} (h : c.Represents l) :
      (acts.foldl (DiskCas.act H) c).Represents (acts.foldl (LocalCas.act H) l) := by
    induction acts generalizing c l with
    | nil => exact h
    | cons a acts ih => exact ih (h.act H a)
  have h := hrun (c := .empty) (l := ⟨.disk, ∅, ∅, false⟩) ⟨rfl, fun _ => rfl⟩
  exact ⟨h.size d, h.has d, h.get d, h.verify d, (h.reclaim d).1⟩

end NessieStore
