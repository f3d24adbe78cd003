import NessieStore.Disk.Files

/-!
# Opening a store settles what an earlier release left

`DiskCas::open` (`nessie-cas-disk`) goes through the shards and settles every `<hex>.reclaimN` file: a
healthy one replaces the blob's own file when that is missing or corrupt, and any other is removed.
The listing comes in any order, and every call of the file system may fail, which ends the sweep.

A healthy copy is never lost (`open_loses_no_healthy_copy`): the moments of a sweep are the states
after any number of listed files, since settling one file renames or unlinks at most once.
-/

set_option autoImplicit false

namespace NessieStore

open Lib

/-- What fails while one sibling is settled, with the error's text. -/
structure SettleFaults where
  readSibling : Option String := none
  readCanonical : Option String := none
  /-- The rename or the unlink. -/
  change : Option String := none

/-- What the listing of the directories comes to next. -/
inductive Listed
  | file (p : BlobPath) (io : SettleFaults)
  | failed (what e : String)

/-- The files that a listing names. -/
def Listed.paths (l : List Listed) : List BlobPath :=
  l.filterMap fun
    | .file p _ => some p
    | .failed .. => none

namespace DiskCas

variable (H : HashFn)

/-- Is the sibling to take the place of the blob's own file? -/
def replaces (c : DiskCas) (d : Digest) (healthy : Bool) (fault : Option String) :
    Except BackendError Bool :=
  if healthy then
    match c.verify H d fault with
    | .ok true => .ok false
    | .ok false => .ok true
    | .error (.blobNotFound _) => .ok true
    -- inconclusive: the sibling stays
    | .error e => .error e
  else .ok false

def settleSibling (c : DiskCas) (d : Digest) (p : BlobPath) (io : SettleFaults) :
    Except BackendError Unit × DiskCas :=
  match io.readSibling, c.blobs.lookup p with
  | some e, _ => (.error (ioErr "read sibling" e), c)
  | none, none => (.error (ioErr "read sibling" "No such file or directory"), c)
  | none, some bytes =>
    match c.replaces H d (d.verify H bytes) io.readCanonical, io.change with
    | .error e, _ => (.error e, c)
    | .ok true, none => (.ok (), { c with blobs := (c.blobs.erase p).insert d.path bytes })
    | .ok true, some e => (.error (ioErr "restore sibling" e), c)
    | .ok false, none => (.ok (), { c with blobs := c.blobs.erase p })
    | .ok false, some e => (.error (ioErr "drop sibling" e), c)

def settleLegacySiblings : List Listed → DiskCas → Except BackendError Unit × DiskCas
  | [], c => (.ok (), c)
  | .failed what e :: _, c => (.error (ioErr what e), c)
  | .file p io :: rest, c =>
    match p.sibling? with
    | none => settleLegacySiblings rest c
    | some d =>
      match c.settleSibling H d p io with
      | (.ok _, c) => settleLegacySiblings rest c
      | (.error e, c) => (.error e, c)

/-- `open` of a store that exists: what was being written is discarded, then the siblings are
settled. -/
def reopen (c : DiskCas) (listing : List Listed) : Except BackendError Unit × DiskCas :=
  settleLegacySiblings H listing { c with tmp := ∅ }

end DiskCas

/-! ## The copies of a blob -/

/-- The name of one of the blob's siblings. -/
def Digest.IsSibling (d : Digest) (p : BlobPath) : Prop :=
  ∃ n, n ≠ [] ∧ n.all Char.isDigit = true ∧ p = d.sibling n

theorem Digest.IsSibling.sibling? {d : Digest} {p : BlobPath} (h : d.IsSibling p) :
    p.sibling? = some d := by
  obtain ⟨n, hne, hdigits, rfl⟩ := h
  exact BlobPath.sibling?_sibling d hne hdigits

namespace DiskCas

/-- A copy of the blob that hashes to its digest, in its own file or aside. -/
def HealthyCopy (H : HashFn) (c : DiskCas) (d : Digest) : Prop :=
  ∃ p bytes, (p = d.path ∨ d.IsSibling p) ∧ c.blobs.lookup p = some bytes ∧
    d.verify H bytes = true

/-- The blob's own file hashes to its digest. -/
def Canonical (H : HashFn) (c : DiskCas) (d : Digest) : Prop :=
  ∃ bytes, c.blobs.lookup d.path = some bytes ∧ d.verify H bytes = true

/-- Nothing but blobs' files, in lower case, and siblings. -/
def Tidy (c : DiskCas) : Prop :=
  ∀ p bytes, c.blobs.lookup p = some bytes → ∃ d : Digest, p = d.path ∨ d.IsSibling p

/-- What the directories list: every file once, in any order. -/
def Listing (c : DiskCas) (paths : List BlobPath) : Prop :=
  paths.Nodup ∧ ∀ p, p ∈ paths ↔ ∃ bytes, c.blobs.lookup p = some bytes

/-- A sibling is no blob's own file. -/
theorem path_ne_of_sibling? {p : BlobPath} {d : Digest} (h : p.sibling? = some d) (e : Digest) :
    e.path ≠ p := by
  rintro rfl
  rw [BlobPath.sibling?_path] at h
  cases h

/-- In a tidy directory, what parses as a sibling is one. -/
theorem Tidy.isSibling {c : DiskCas} (h : c.Tidy) {p : BlobPath} {bytes : Bytes}
    (hp : c.blobs.lookup p = some bytes) {d : Digest} (hs : p.sibling? = some d) :
    d.IsSibling p := by
  obtain ⟨e, rfl | he⟩ := h p bytes hp
  · exact absurd rfl (path_ne_of_sibling? hs e)
  · have hsame := he.sibling?
    rw [hs] at hsame
    cases hsame
    exact he

/-! ## One sibling -/

/-- What settling a sibling does: nothing, or it drops a copy that is not needed, or it puts a healthy
one in the place of a file that is not. -/
inductive Settles (H : HashFn) (c : DiskCas) (d : Digest) (p : BlobPath) :
    Except BackendError Unit → DiskCas → Prop
  | failed {e : BackendError} : Settles H c d p (.error e) c
  | dropped {bytes : Bytes} (hp : c.blobs.lookup p = some bytes)
      (hspare : d.verify H bytes = true → c.Canonical H d) :
      Settles H c d p (.ok ()) { c with blobs := c.blobs.erase p }
  | restored {bytes : Bytes} (hp : c.blobs.lookup p = some bytes) (hv : d.verify H bytes = true)
      (hbad : ¬ c.Canonical H d) :
      Settles H c d p (.ok ()) { c with blobs := (c.blobs.erase p).insert d.path bytes }

variable {H : HashFn}

theorem verify_cases (c : DiskCas) (d : Digest) (fault : Option String) :
    c.verify H d fault = .ok true ∧ c.Canonical H d ∨
    (c.verify H d fault = .ok false ∨ c.verify H d fault = .error (.blobNotFound d)) ∧
      ¬ c.Canonical H d ∨
    ∃ e, c.verify H d fault = .error (ioErr "read blob" e) := by
  unfold verify Canonical
  cases fault with
  | some e => exact .inr (.inr ⟨e, rfl⟩)
  | none =>
    cases c.blobs.lookup d.path with
    | none => exact .inr (.inl ⟨.inr rfl, by rintro ⟨b, ⟨⟩, -⟩⟩)
    | some bytes =>
      cases hv : d.verify H bytes with
      | true => exact .inl ⟨by rw [← hv], bytes, rfl, hv⟩
      | false =>
        refine .inr (.inl ⟨.inl (by rw [← hv]), ?_⟩)
        rintro ⟨b, hb, hvb⟩
        cases hb
        rw [hv] at hvb
        cases hvb

/-- The decision: a healthy sibling replaces what is not healthy. -/
theorem replaces_spec {c : DiskCas} {d : Digest} {healthy : Bool} {fault : Option String}
    {out : Except BackendError Bool} (h : c.replaces H d healthy fault = out) :
    (∃ e, out = .error e) ∨ out = .ok true ∧ healthy = true ∧ ¬ c.Canonical H d ∨
      out = .ok false ∧ (healthy = true → c.Canonical H d) := by
  unfold replaces at h
  cases healthy with
  | false => exact .inr (.inr ⟨h.symm, by rintro ⟨⟩⟩)
  | true =>
    rcases verify_cases (H := H) c d fault with ⟨hv, hok⟩ | ⟨hv | hv, hbad⟩ | ⟨e, hv⟩
    · rw [hv] at h
      exact .inr (.inr ⟨h.symm, fun _ => hok⟩)
    · rw [hv] at h
      exact .inr (.inl ⟨h.symm, rfl, hbad⟩)
    · rw [hv] at h
      exact .inr (.inl ⟨h.symm, rfl, hbad⟩)
    · rw [hv] at h
      exact .inl ⟨_, h.symm⟩

theorem settleSibling_settles (c : DiskCas) (d : Digest) (p : BlobPath) (io : SettleFaults) :
    Settles H c d p (c.settleSibling H d p io).1 (c.settleSibling H d p io).2 := by
  unfold settleSibling
  cases io.readSibling with
  | some e => exact .failed
  | none =>
    cases hp : c.blobs.lookup p with
    | none => exact .failed
    | some bytes =>
      dsimp only
      cases hout : c.replaces H d (d.verify H bytes) io.readCanonical with
      | error e => exact .failed
      | ok replace =>
        rcases replaces_spec hout with ⟨e, ⟨⟩⟩ | ⟨heq, hv, hbad⟩ | ⟨heq, hspare⟩
        · cases heq
          cases io.change with
          | none => exact .restored hp hv hbad
          | some e => exact .failed
        · cases heq
          cases io.change with
          | none => exact .dropped hp hspare
          | some e => exact .failed

/-! ## The sweep -/

/-- What a sweep has kept of the directory it started from. -/
structure Keeps (H : HashFn) (c c' : DiskCas) : Prop where
  copies : ∀ d, c'.HealthyCopy H d ↔ c.HealthyCopy H d
  canonical : ∀ (d : Digest) bytes, c.blobs.lookup d.path = some bytes → d.verify H bytes = true →
    c'.blobs.lookup d.path = some bytes
  /-- Siblings come from nowhere. -/
  siblings : ∀ p d bytes, p.sibling? = some d → c'.blobs.lookup p = some bytes →
    c.blobs.lookup p = some bytes

namespace Keeps

theorem refl (c : DiskCas) : Keeps H c c :=
  ⟨fun _ => Iff.rfl, fun _ _ h _ => h, fun _ _ _ _ h => h⟩

theorem trans {c c' c'' : DiskCas} (h : Keeps H c c') (h' : Keeps H c' c'') : Keeps H c c'' where
  copies d := (h'.copies d).trans (h.copies d)
  canonical d bytes hd hv := h'.canonical d bytes (h.canonical d bytes hd hv) hv
  siblings p d bytes hs hp := h.siblings p d bytes hs (h'.siblings p d bytes hs hp)

end Keeps

/-- A copy at a sibling's name is a copy of that sibling's blob. -/
theorem eq_of_copy_at {p : BlobPath} {d e : Digest} (hs : p.sibling? = some d)
    (he : p = e.path ∨ e.IsSibling p) : e = d := by
  rcases he with rfl | he
  · exact absurd rfl (path_ne_of_sibling? hs e)
  · have hsame := he.sibling?
    rw [hs] at hsame
    exact (Option.some.inj hsame).symm

section Sibling

variable {c : DiskCas} {d : Digest} {p : BlobPath} {bytes : Bytes}

/-- Dropping a sibling that is corrupt, or not needed. -/
theorem Keeps.drop (hs : p.sibling? = some d) (hp : c.blobs.lookup p = some bytes)
    (hspare : d.verify H bytes = true → c.Canonical H d) :
    Keeps H c { c with blobs := c.blobs.erase p } := by
  have hkept : ∀ q b, (c.blobs.erase p).lookup q = some b → c.blobs.lookup q = some b := by
    intro q b hq
    rw [Map.lookup_erase_eq] at hq
    split at hq
    · cases hq
    · exact hq
  have hrest : ∀ q, q ≠ p → (c.blobs.erase p).lookup q = c.blobs.lookup q :=
    fun q hq => Finmap.lookup_erase_ne hq
  refine ⟨fun e => ⟨?_, ?_⟩, ?_, fun q e b _ hq => hkept q b hq⟩
  · rintro ⟨q, b, hq, hlookup, hv⟩
    exact ⟨q, b, hq, hkept q b hlookup, hv⟩
  · rintro ⟨q, b, hq, hlookup, hv⟩
    by_cases hqp : q = p
    · subst hqp
      cases eq_of_copy_at hs hq
      rw [hp] at hlookup
      cases hlookup
      obtain ⟨own, hown, hvown⟩ := hspare hv
      exact ⟨d.path, own, .inl rfl, (hrest _ (path_ne_of_sibling? hs d)).trans hown, hvown⟩
    · exact ⟨q, b, hq, (hrest q hqp).trans hlookup, hv⟩
  · intro e b he _
    exact (hrest _ (path_ne_of_sibling? hs e)).trans he

/-- The files after a sibling was renamed into place. -/
theorem lookup_restored (q : BlobPath) :
    ((c.blobs.erase p).insert d.path bytes).lookup q =
      if q = d.path then some bytes else if q = p then none else c.blobs.lookup q := by
  rw [Map.lookup_insert_eq, Map.lookup_erase_eq]

/-- Putting a healthy sibling in the place of a file that is missing or corrupt. -/
theorem Keeps.restore (hsib : d.IsSibling p) (hp : c.blobs.lookup p = some bytes)
    (hv : d.verify H bytes = true) (hbad : ¬ c.Canonical H d) :
    Keeps H c { c with blobs := (c.blobs.erase p).insert d.path bytes } := by
  have hs := hsib.sibling?
  refine ⟨fun e => ⟨?_, ?_⟩, ?_, ?_⟩
  · rintro ⟨q, b, hq, hl, hvb⟩
    dsimp only at hl
    rw [lookup_restored] at hl
    split at hl
    · next hqd =>
      -- what stands in the blob's own file now is the sibling
      subst hqd
      cases hl
      rcases hq with hq | hq
      · cases Digest.path_injective hq
        exact ⟨p, bytes, .inr hsib, hp, hvb⟩
      · exact absurd rfl (path_ne_of_sibling? hq.sibling? d)
    · split at hl
      · cases hl
      · exact ⟨q, b, hq, hl, hvb⟩
  · rintro ⟨q, b, hq, hl, hvb⟩
    by_cases hqp : q = p
    · subst hqp
      cases eq_of_copy_at hs hq
      exact ⟨d.path, bytes, .inl rfl, (lookup_restored _).trans (if_pos rfl), hv⟩
    · by_cases hqd : q = d.path
      · subst hqd
        rcases hq with hq | hq
        · cases Digest.path_injective hq
          exact absurd ⟨b, hl, hvb⟩ hbad
        · exact absurd rfl (path_ne_of_sibling? hq.sibling? d)
      · refine ⟨q, b, hq, (lookup_restored q).trans ?_, hvb⟩
        rw [if_neg hqd, if_neg hqp]
        exact hl
  · intro e b he hvb
    have hne : e.path ≠ d.path := by
      intro heq
      cases Digest.path_injective heq
      exact hbad ⟨b, he, hvb⟩
    refine (lookup_restored _).trans ?_
    rw [if_neg hne, if_neg (path_ne_of_sibling? hs e)]
    exact he
  · intro q e b hq hl
    dsimp only at hl
    rw [lookup_restored, if_neg (path_ne_of_sibling? hq d).symm] at hl
    split at hl
    · cases hl
    · exact hl

/-- Settling one sibling keeps a tidy directory tidy and loses no healthy copy, and the sibling is
gone unless something failed. -/
theorem Settles.keeps {c' : DiskCas} {out : Except BackendError Unit} (h : Settles H c d p out c')
    (htidy : c.Tidy) (hs : p.sibling? = some d) :
    c'.Tidy ∧ Keeps H c c' ∧ (out = .ok () → c'.blobs.lookup p = none) := by
  cases h with
  | failed => exact ⟨htidy, .refl c, by rintro ⟨⟩⟩
  | dropped hp hspare =>
    refine ⟨?_, .drop hs hp hspare, fun _ => Finmap.lookup_erase p c.blobs⟩
    intro q b hq
    dsimp only at hq
    rw [Map.lookup_erase_eq] at hq
    split at hq
    · cases hq
    · exact htidy q b hq
  | restored hp hv hbad =>
    refine ⟨?_, .restore (htidy.isSibling hp hs) hp hv hbad, fun _ => ?_⟩
    · intro q b hq
      dsimp only at hq
      rw [lookup_restored] at hq
      split at hq
      · next hqd => exact ⟨d, .inl hqd⟩
      · split at hq
        · cases hq
        · exact htidy q b hq
    · refine (lookup_restored p).trans ?_
      rw [if_neg (path_ne_of_sibling? hs d).symm, if_pos rfl]

end Sibling

/-- The sweep lemma; the induction is on what is listed. -/
theorem sweep_keeps {c : DiskCas} (htidy : c.Tidy) (l : List Listed) :
    (settleLegacySiblings H l c).2.Tidy ∧ Keeps H c (settleLegacySiblings H l c).2 ∧
      ((settleLegacySiblings H l c).1 = .ok () → ∀ p ∈ Listed.paths l, p.sibling?.isSome = true →
        (settleLegacySiblings H l c).2.blobs.lookup p = none) := by
  induction l generalizing c with
  | nil => exact ⟨htidy, .refl c, by simp [Listed.paths]⟩
  | cons next rest ih =>
    cases next with
    | failed what e => exact ⟨htidy, .refl c, by rintro ⟨⟩⟩
    | file p io =>
      rw [settleLegacySiblings]
      have hpaths : Listed.paths (.file p io :: rest) = p :: Listed.paths rest := rfl
      rw [hpaths]
      cases hs : p.sibling? with
      | none =>
        obtain ⟨htidy', hkeeps, hgone⟩ := ih htidy
        refine ⟨htidy', hkeeps, fun hok => List.forall_mem_cons.mpr ⟨?_, hgone hok⟩⟩
        rw [hs]
        rintro ⟨⟩
      | some d =>
        have hsettles := settleSibling_settles (H := H) c d p io
        dsimp only
        cases hout : c.settleSibling H d p io with
        | mk out c' =>
          rw [hout] at hsettles
          obtain ⟨htidy', hkeeps, hgone⟩ := hsettles.keeps htidy hs
          cases out with
          | error e => exact ⟨htidy', hkeeps, by rintro ⟨⟩⟩
          | ok u =>
            obtain ⟨htidy'', hkeeps', hgone'⟩ := ih htidy'
            refine ⟨htidy'', hkeeps.trans hkeeps', fun hok => ?_⟩
            refine List.forall_mem_cons.mpr ⟨fun _ => ?_, hgone' hok⟩
            -- a sibling that is gone does not come back
            refine Option.eq_none_iff_forall_ne_some.mpr fun bytes hp => ?_
            have hback := hkeeps'.siblings p d bytes hs hp
            rw [hgone rfl] at hback
            cases hback

/-- At every moment of the sweep a blob has a healthy copy if it had one, and a healthy file is as it
was; and a sweep that succeeds leaves no sibling, and a healthy file for every blob that had a healthy
copy. -/
theorem open_loses_no_healthy_copy {c : DiskCas} (htidy : c.Tidy) {listing : List Listed}
    (hlist : c.Listing (Listed.paths listing)) :
    (∀ moment, moment <+: listing → ∀ d : Digest,
      ((c.reopen H moment).2.HealthyCopy H d ↔ c.HealthyCopy H d) ∧
        ∀ bytes, c.blobs.lookup d.path = some bytes → d.verify H bytes = true →
          (c.reopen H moment).2.blobs.lookup d.path = some bytes) ∧
    ((c.reopen H listing).1 = .ok () →
      (∀ (d : Digest) p, d.IsSibling p → (c.reopen H listing).2.blobs.lookup p = none) ∧
        ∀ d : Digest, (c.reopen H listing).2.Canonical H d ↔ c.HealthyCopy H d) := by
  have htmp : ({ c with tmp := ∅ } : DiskCas).Tidy := htidy
  refine ⟨?_, ?_⟩
  · intro moment _ d
    obtain ⟨-, hkeeps, -⟩ := sweep_keeps (H := H) htmp moment
    exact ⟨hkeeps.copies d, hkeeps.canonical d⟩
  · intro hok
    obtain ⟨-, hkeeps, hgone⟩ := sweep_keeps (H := H) htmp listing
    have hnone : ∀ (d : Digest) p, d.IsSibling p →
        (c.reopen H listing).2.blobs.lookup p = none := by
      intro d p hp
      refine Option.eq_none_iff_forall_ne_some.mpr fun bytes hleft => ?_
      have hwas := hkeeps.siblings p d bytes hp.sibling? hleft
      have hlisted := (hlist.2 p).mpr ⟨bytes, hwas⟩
      have hempty := hgone hok p hlisted (by rw [hp.sibling?]; rfl)
      have hleft' : (settleLegacySiblings H listing { c with tmp := ∅ }).2.blobs.lookup p =
          some bytes := hleft
      rw [hempty] at hleft'
      cases hleft'
    refine ⟨hnone, fun d => ?_⟩
    have hcopies : (c.reopen H listing).2.HealthyCopy H d ↔ c.HealthyCopy H d := hkeeps.copies d
    rw [← hcopies]
    constructor
    · rintro ⟨bytes, hd, hv⟩
      exact ⟨d.path, bytes, .inl rfl, hd, hv⟩
    · rintro ⟨p, bytes, rfl | hp, hl, hv⟩
      · exact ⟨bytes, hl, hv⟩
      · rw [hnone d p hp] at hl
        cases hl

end DiskCas

/-! ## A corrupt blob with two siblings -/

/-- A corrupt file, a corrupt sibling and a healthy one. -/
def rottenDisk : DiskCas where
  tmp := Finmap.singleton "7-0".toList [1]
  blobs := Finmap.insert (Digest.compute .short [1, 2]).path [9]
    (Finmap.insert ((Digest.compute .short [1, 2]).sibling "0".toList) [1]
      (Finmap.singleton ((Digest.compute .short [1, 2]).sibling "12".toList) [1, 2]))

/-- Its files, the healthy sibling first. -/
def rottenListing : List Listed :=
  [.file ((Digest.compute .short [1, 2]).sibling "12".toList) {},
    .file (Digest.compute .short [1, 2]).path {},
    .file ((Digest.compute .short [1, 2]).sibling "0".toList) {}]

theorem open_loses_no_healthy_copy_rotten :
    (rottenDisk.reopen .short rottenListing).1 = .ok () ∧
      ¬ rottenDisk.Canonical .short (.compute .short [1, 2]) ∧
      (rottenDisk.reopen .short rottenListing).2.Canonical .short (.compute .short [1, 2]) := by
  have hkeys : rottenDisk.blobs.keys = (Listed.paths rottenListing).toFinset := by decide +kernel
  have hmem : ∀ p, p ∈ Listed.paths rottenListing ↔ ∃ bytes, rottenDisk.blobs.lookup p = some bytes := by
    intro p
    rw [← List.mem_toFinset, ← hkeys, Finmap.mem_keys]
    exact Finmap.mem_iff
  have htidy : rottenDisk.Tidy := by
    intro p bytes hp
    have hlisted := (hmem p).mpr ⟨bytes, hp⟩
    simp only [Listed.paths, rottenListing, List.filterMap_cons, List.filterMap_nil, List.mem_cons,
      List.not_mem_nil, or_false] at hlisted
    rcases hlisted with rfl | rfl | rfl
    · exact ⟨_, .inr ⟨"12".toList, by decide, by decide, rfl⟩⟩
    · exact ⟨_, .inl rfl⟩
    · exact ⟨_, .inr ⟨"0".toList, by decide, by decide, rfl⟩⟩
  have hok : (rottenDisk.reopen .short rottenListing).1 = .ok () := by decide +kernel
  have hopen := (DiskCas.open_loses_no_healthy_copy htidy
    ⟨by decide +kernel, hmem⟩ (H := .short)).2 hok
  refine ⟨hok, ?_, (hopen.2 _).mpr ?_⟩
  · rintro ⟨bytes, hb, hv⟩
    have hown : rottenDisk.blobs.lookup (Digest.compute .short [1, 2]).path = some [9] := by
      decide +kernel
    rw [hown] at hb
    cases hb
    revert hv
    decide +kernel
  · exact ⟨(Digest.compute .short [1, 2]).sibling "12".toList, [1, 2],
      .inr ⟨"12".toList, by decide, by decide, rfl⟩, by decide +kernel, by decide +kernel⟩

end NessieStore
