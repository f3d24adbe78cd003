import NessieStore.Core.Ascending

/-!
# Merkle trees

The directory nodes of the content-addressed graph and their canonical bytes (`nessie-backend-core`,
`tree.rs`). A tree is a `BTreeMap` from names to entries: here the list of its entries, with the
proof that the names ascend strictly.

The encoding is exact: every tree is read back, and nothing else is read. It writes lengths and the
number of entries as `u64`, so reading back asks that they fit (`Tree.Fits`), which no tree in memory
violates and which every tree that was read meets.
-/

set_option autoImplicit false

namespace NessieStore

open Lib

/-- What a `TreeEntry` points at. -/
inductive TreeKind
  | file (isExecutable : Bool)
  | dir
deriving DecidableEq

structure TreeEntry where
  digest : Digest
  kind : TreeKind
deriving DecidableEq

structure Tree where
  entries : List (List Char × TreeEntry)
  ascending : AscendsFrom none entries

namespace Tree

/-- `TREE_DOMAIN`. -/
def domain : Bytes := utf8 "nessie.Tree.v1\x00".toList

def bad (what : String) : BackendError := .invalidArgument ("malformed Tree: " ++ what)

def writeKind : TreeKind → Bytes
  | .file isExecutable => [0, isExecutable.toUInt8]
  | .dir => [1]

def readKind (r : Reader) : Except BackendError (TreeKind × Reader) := do
  let (tag, r) ← r.readU8 bad
  if tag = 0 then do
    let (isExecutable, r) ← r.readBool bad
    .ok (.file isExecutable, r)
  else if tag = 1 then .ok (.dir, r)
  else .error (bad "unknown tree entry kind")

theorem readKind_append (p : Nat) (tail : Bytes) (kind : TreeKind) :
    readKind ⟨p, writeKind kind ++ tail⟩ = .ok (kind, ⟨p + (writeKind kind).length, tail⟩) := by
  cases kind with
  | file isExecutable =>
    show readKind ⟨p, 0 :: isExecutable.toUInt8 :: tail⟩ = _
    unfold readKind
    rw [Reader.readU8_cons]
    show (Reader.readBool bad ⟨p + 1, isExecutable.toUInt8 :: tail⟩ >>= fun x => _) = _
    rw [Reader.readBool_cons]
    rfl
  | dir =>
    show readKind ⟨p, 1 :: tail⟩ = _
    unfold readKind
    rw [Reader.readU8_cons]
    rfl

theorem readKind_exact {r r' : Reader} {kind : TreeKind} (h : readKind r = .ok (kind, r')) :
    r.rest = writeKind kind ++ r'.rest := by
  obtain ⟨⟨tag, r₁⟩, htag, h⟩ := Lib.ok_of_bind h
  have hread := Reader.readU8_exact htag
  dsimp only at h
  split at h
  · next h0 =>
    obtain ⟨⟨isExecutable, r₂⟩, hbool, h⟩ := Lib.ok_of_bind h
    cases h
    rw [hread, h0, Reader.readBool_exact hbool]
    rfl
  · split at h
    · next h1 =>
      cases h
      rw [hread, h1]
      rfl
    · cases h

/-- What stands behind a name: the kind, then the digest. -/
def entryCodec : ValueCodec TreeEntry where
  write e := writeKind e.kind ++ writeDelimited e.digest.toMultihashBytes
  read r := do
    let (kind, r) ← readKind r
    let (digest, r) ← r.readDigest bad
    .ok (⟨digest, kind⟩, r)
  forward p tail e := by
    refine ⟨p + (writeKind e.kind).length + 8 + e.digest.toMultihashBytes.length, ?_⟩
    simp only [List.append_assoc, readKind_append, Reader.readDigest_append, bind, Except.bind]
  exact h := by
    obtain ⟨⟨kind, r₁⟩, hkind, h⟩ := Lib.ok_of_bind h
    obtain ⟨⟨digest, r₂⟩, hdigest, h⟩ := Lib.ok_of_bind h
    cases h
    rw [readKind_exact hkind, Reader.readDigest_exact hdigest, List.append_assoc]

def toCanonicalBytes (t : Tree) : Bytes :=
  domain ++ leBytes 8 t.entries.length ++ t.entries.flatMap (writeNamed entryCodec)

/-- The loop of `from_canonical_bytes`. -/
def readEntries (n : Nat) (r : Reader) :
    Except BackendError ({ entries : List (List Char × TreeEntry) // AscendsFrom none entries } ×
      Reader) :=
  readAscending entryCodec (bad "entry name") (bad "entries not in canonical ascending order") bad n
    none r

def fromCanonicalBytes (bytes : Bytes) : Except BackendError Tree := do
  let r ← (Reader.new bytes).expectTag bad domain
  let (n, r) ← r.readU64 bad
  let (entries, r) ← readEntries n r
  r.expectEnd bad
  .ok ⟨entries.1, entries.2⟩

/-- The lengths that the encoding writes fit eight bytes. -/
structure Fits (t : Tree) : Prop where
  count : t.entries.length < 2 ^ 64
  names : ∀ e ∈ t.entries, (utf8 e.1).length < 2 ^ 64

/-! ## Exactness -/

/-- A decoded encoding is the tree that was encoded. -/
theorem fromCanonicalBytes_toCanonicalBytes {t : Tree} (h : t.Fits) :
    fromCanonicalBytes t.toCanonicalBytes = .ok t := by
  obtain ⟨q, hq⟩ := readAscending_append entryCodec (bad "entry name")
    (bad "entries not in canonical ascending order") bad t.entries h.names [] none
    (0 + domain.length + 8) t.ascending
  rw [List.append_nil] at hq
  simp only [fromCanonicalBytes, toCanonicalBytes, Reader.new, List.append_assoc,
    Reader.expectTag_append, Reader.readU64_append _ _ h.count, readEntries, hq, bind, Except.bind]
  rfl

/-- What decodes is the encoding of what it decodes to. -/
theorem fromCanonicalBytes_exact {bytes : Bytes} {t : Tree} (h : fromCanonicalBytes bytes = .ok t) :
    t.Fits ∧ bytes = t.toCanonicalBytes := by
  obtain ⟨r₁, htag, h⟩ := Lib.ok_of_bind h
  obtain ⟨⟨n, r₂⟩, hcount, h⟩ := Lib.ok_of_bind h
  obtain ⟨⟨entries, r₃⟩, hentries, h⟩ := Lib.ok_of_bind h
  obtain ⟨u, hend, h⟩ := Lib.ok_of_bind h
  cases h
  obtain ⟨hn, hlt⟩ := Reader.readU64_exact hcount
  obtain ⟨hlen, hnames, hrest⟩ := readAscending_exact hentries
  refine ⟨⟨hlen ▸ hlt, hnames⟩, ?_⟩
  have hbytes : bytes = domain ++ r₁.rest := Reader.expectTag_exact htag
  rw [hbytes, hn, hrest, Reader.expectEnd_exact hend, toCanonicalBytes, hlen, List.append_nil,
    List.append_assoc]

/-- The canonical encoding of trees: every tree that fits a 64-bit machine is read back, and what is
read is such a tree, in the only bytes that stand for it. -/
theorem tree_encoding_exact :
    (∀ t : Tree, t.Fits → fromCanonicalBytes t.toCanonicalBytes = .ok t) ∧
      ∀ (bytes : Bytes) (t : Tree), fromCanonicalBytes bytes = .ok t →
        t.Fits ∧ t.toCanonicalBytes = bytes := by
  refine ⟨fun t h => fromCanonicalBytes_toCanonicalBytes h, fun bytes t h => ?_⟩
  obtain ⟨hfits, hbytes⟩ := fromCanonicalBytes_exact h
  exact ⟨hfits, hbytes.symm⟩

end Tree

end NessieStore
