import NessieStore.Backend.Local
import NessieStore.Core.ByText
import NessieStore.Core.Tree

/-!
# Pins as a tree and a ref

How a node keeps its pins on disk (`nessie-store`, `cas_node/refs.rs`): the pin set is a `Tree` with
one entry per pin, stored as a blob, and the file `refs/roots` holds that blob's digest on one line.
`load` reads the pins back. What `load` returns for a ref that `refLine` wrote is the set that
`rootTree` was made of (`load_refLine`); the names in the tree are sorted as texts, which is not the
order of the digests.

The set of pins is written with its size as a `u64`, so the result asks for fewer than 2^64 of them.
-/

set_option autoImplicit false

namespace NessieStore

open Lib

/-- What `RootRegistry` records: the pins, and the root tree blob that the ref names. -/
structure Refs where
  pins : Finset Digest
  tree : Option Digest
deriving DecidableEq

/-- The never-evict class, `RootSource::roots`. -/
def Refs.pinned (r : Refs) : Finset Digest := r.pins ∪ r.tree.elim ∅ fun tree => {tree}

theorem Refs.mem_pinned {r : Refs} {d : Digest} : d ∈ r.pinned ↔ d ∈ r.pins ∨ r.tree = some d := by
  rw [pinned, Finset.mem_union]
  cases r.tree with
  | none => simp
  | some tree => simp [eq_comm]

/-! ## The root tree -/

/-- The entry of a pin, under its digest's text. -/
def pinEntry (d : Digest) : List Char × TreeEntry := (d.toText, ⟨d, .file false⟩)

/-- `root_tree`: one entry per pin. -/
def rootTree (pins : Finset Digest) : Tree where
  entries := (byText pins).map pinEntry
  ascending := ⟨List.pairwise_map.mpr (byText_ascending pins), by simp⟩

/-- What is stored for a pin set. -/
def rootBytes (pins : Finset Digest) : Bytes := (rootTree pins).toCanonicalBytes

/-! ## The ref -/

/-- The line that `publish_ref` writes. -/
def refLine (tree : Digest) : List Char := tree.toText ++ ['\n']

/-- `str::strip_suffix('\n')`, or the text itself. -/
def stripNewline (text : List Char) : List Char :=
  if text.getLast? = some '\n' then text.dropLast else text

/-- The tree that a ref file names, if it parses. -/
def namedBy (ref : Option (List Char)) : Option Digest :=
  ref.bind fun text => (Digest.ofText (stripNewline text)).toOption

/-- Why a node does not start. -/
inductive LoadError
  | ref (e : DigestParseError)
  | backend (e : BackendError)
  /-- An entry whose name is not its digest. -/
  | entry (name : List Char) (digest : Digest)
deriving DecidableEq

/-- The loop of `read_tree` over the entries. -/
def entryPins : List (List Char × TreeEntry) → Except LoadError (Finset Digest)
  | [] => .ok ∅
  | (name, e) :: rest =>
    if name = e.digest.toText then (entryPins rest).map (insert e.digest)
    else .error (.entry name e.digest)

section Load

variable (H : HashFn)

def readTree (c : LocalCas) (text : List Char) : Except LoadError Refs :=
  match Digest.ofText (stripNewline text) with
  | .error e => .error (.ref e)
  | .ok tree =>
    match c.get H tree with
    | .error e => .error (.backend e)
    | .ok bytes =>
      match Tree.fromCanonicalBytes bytes with
      | .error e => .error (.backend e)
      | .ok t => (entryPins t.entries).map fun pins => ⟨pins, some tree⟩

/-- The pins and the root tree that the ref file names; none without a file. -/
def load (c : LocalCas) : Option (List Char) → Except LoadError Refs
  | none => .ok ⟨∅, none⟩
  | some text => readTree H c text

end Load

@[simp] theorem stripNewline_refLine (tree : Digest) : stripNewline (refLine tree) = tree.toText := by
  simp [stripNewline, refLine]

@[simp] theorem namedBy_refLine (tree : Digest) : namedBy (some (refLine tree)) = some tree := by
  simp only [namedBy, Option.bind_some, stripNewline_refLine, Digest.ofText_toText]
  rfl

/-- What it takes for a ref to load. -/
theorem load_some {H : HashFn} {c : LocalCas} {text : List Char} {roots : Refs} :
    load H c (some text) = .ok roots ↔
      ∃ tree bytes t, Digest.ofText (stripNewline text) = .ok tree ∧ c.get H tree = .ok bytes ∧
        Tree.fromCanonicalBytes bytes = .ok t ∧ entryPins t.entries = .ok roots.pins ∧
        roots.tree = some tree := by
  simp only [load, readTree]
  constructor
  · intro h
    split at h
    · cases h
    · next tree hparse =>
      split at h
      · cases h
      · next bytes hget =>
        split at h
        · cases h
        · next t hdecode =>
          cases hpins : entryPins t.entries with
          | error e => rw [hpins] at h; cases h
          | ok pins =>
            rw [hpins] at h
            cases h
            exact ⟨tree, bytes, t, hparse, hget, hdecode, hpins, rfl⟩
  · rintro ⟨tree, bytes, t, hparse, hget, hdecode, hpins, htree⟩
    simp only [hparse, hget, hdecode, hpins, Except.map, ← htree]

/-- A ref that loads names the tree it loaded, which can be read. -/
theorem load_ok {H : HashFn} {c : LocalCas} {ref : Option (List Char)} {roots : Refs}
    (h : load H c ref = .ok roots) :
    namedBy ref = roots.tree ∧ ∀ tree, roots.tree = some tree → ∃ b, c.get H tree = .ok b := by
  cases ref with
  | none =>
    cases h
    exact ⟨rfl, by simp⟩
  | some text =>
    obtain ⟨tree, bytes, t, hparse, hget, -, -, htree⟩ := load_some.mp h
    rw [htree]
    refine ⟨by simp only [namedBy, Option.bind_some, hparse]; rfl, ?_⟩
    rintro _ ⟨⟩
    exact ⟨bytes, hget⟩

/-- What `load` reads is the ref and the one blob it names. -/
theorem load_congr {H : HashFn} {c c' : LocalCas} {ref : Option (List Char)} {roots : Refs}
    (h : load H c ref = .ok roots)
    (hget : ∀ tree, roots.tree = some tree → c'.get H tree = c.get H tree) :
    load H c' ref = .ok roots := by
  cases ref with
  | none => exact h
  | some text =>
    obtain ⟨tree, bytes, t, hparse, hb, hdecode, hpins, htree⟩ := load_some.mp h
    exact load_some.mpr ⟨tree, bytes, t, hparse, (hget tree htree).trans hb, hdecode, hpins, htree⟩

theorem entryPins_pinEntry (pins : List Digest) :
    entryPins (pins.map pinEntry) = .ok pins.toFinset := by
  induction pins with
  | nil => rfl
  | cons d pins ih =>
    rw [List.map_cons, pinEntry, entryPins, if_pos rfl, ih, List.toFinset_cons]
    rfl

/-- The pins of a root tree are the set it was made of. -/
theorem entryPins_rootTree (pins : Finset Digest) : entryPins (rootTree pins).entries = .ok pins := by
  show entryPins ((byText pins).map pinEntry) = _
  rw [entryPins_pinEntry]
  congr 1
  ext d
  rw [List.mem_toFinset, mem_byText]

/-- A string has at most four bytes for each character. -/
theorem length_utf8_le (text : List Char) : (utf8 text).length ≤ 4 * text.length := by
  unfold utf8
  rw [String.toByteArray_ofList]
  induction text with
  | nil => simp
  | cons c text ih =>
    have hc : [c].utf8Encode.size ≤ 4 := by
      rw [List.utf8Encode_singleton, List.size_toByteArray, String.length_utf8EncodeChar]
      exact Char.utf8Size_le_four c
    rw [Array.length_toList] at ih ⊢
    rw [List.utf8Encode_cons, List.length_cons]
    show ([c].utf8Encode ++ text.utf8Encode).size ≤ _
    rw [ByteArray.size_append]
    exact (Nat.add_le_add hc ih).trans (by omega)

theorem rootTree_fits {pins : Finset Digest} (h : pins.card < 2 ^ 64) : (rootTree pins).Fits where
  count := by
    show ((byText pins).map pinEntry).length < 2 ^ 64
    rw [List.length_map, length_byText]
    exact h
  names := by
    intro e he
    obtain ⟨d, -, rfl⟩ := List.mem_map.mp he
    have hutf8 := length_utf8_le d.toText
    have htext : d.toText.length ≤ 8 + 1 + 64 := by
      simp only [Digest.toText, List.length_append, List.length_cons, Hex.length_encode, d.len]
      cases d.algo <;> decide
    show (utf8 d.toText).length < 2 ^ 64
    omega

theorem fromCanonicalBytes_rootBytes {pins : Finset Digest} (h : pins.card < 2 ^ 64) :
    Tree.fromCanonicalBytes (rootBytes pins) = .ok (rootTree pins) :=
  Tree.fromCanonicalBytes_toCanonicalBytes (rootTree_fits h)

/-- A published ref loads, when the tree it names is held and verifies. -/
theorem load_refLine {H : HashFn} {c : LocalCas} {pins : Finset Digest} {tree : Digest}
    (h : pins.card < 2 ^ 64) (hget : c.get H tree = .ok (rootBytes pins)) :
    load H c (some (refLine tree)) = .ok ⟨pins, some tree⟩ := by
  refine load_some.mpr ⟨tree, _, _, ?_, hget, fromCanonicalBytes_rootBytes h,
    entryPins_rootTree pins, rfl⟩
  rw [stripNewline_refLine, Digest.ofText_toText]

end NessieStore
