import Mathlib.Data.List.Lex
import NessieStore.Core.Reader
import NessieStore.Lib.SortBy

/-!
# Maps by name, in canonical bytes

A `BTreeMap` from strings is written as its entries in the order of the keys, which is the order of
their UTF-8 bytes as Rust compares strings. Decoding checks as it goes that each name is above the
one before, so what it has read so far is always a map (`readAscending` carries the proof), and every
map has one encoding. What stands behind each name is the business of a `ValueCodec`: a writer and a
reader that undo each other exactly.
-/

set_option autoImplicit false

namespace NessieStore

open Lib

/-- The bytes of a string. -/
def utf8 (text : List Char) : Bytes := (String.ofList text).toByteArray.data.toList

/-- `String::from_utf8`. -/
def ofUtf8 (bytes : Bytes) : Option (List Char) :=
  (ByteArray.mk bytes.toArray).utf8Decode?.map Array.toList

@[simp] theorem ofUtf8_utf8 (text : List Char) : ofUtf8 (utf8 text) = some text := by
  unfold ofUtf8 utf8
  rw [Array.toArray_toList, String.toByteArray_ofList]
  show text.utf8Encode.utf8Decode?.map Array.toList = some text
  rw [List.utf8Decode?_utf8Encode]
  rfl

/-- A string has one spelling in bytes. -/
theorem ofUtf8_exact {bytes : Bytes} {text : List Char} (h : ofUtf8 bytes = some text) :
    bytes = utf8 text := by
  obtain ⟨chars, hchars, rfl⟩ := Option.map_eq_some_iff.mp h
  have hsome : (ByteArray.mk bytes.toArray).utf8Decode?.isSome = true := by rw [hchars]; rfl
  have henc := ByteArray.utf8Encode_get_utf8Decode? (h := hsome)
  have hget : (ByteArray.mk bytes.toArray).utf8Decode?.get hsome = chars :=
    Option.get_of_eq_some hsome hchars
  rw [hget] at henc
  show bytes = (String.ofList chars.toList).toByteArray.data.toList
  rw [String.toByteArray_ofList, henc]

theorem utf8_injective : Function.Injective utf8 := by
  intro a b h
  have hb := ofUtf8_utf8 b
  rw [← h, ofUtf8_utf8] at hb
  exact Option.some.inj hb

/-- A character of ASCII is one byte. -/
theorem length_utf8 {text : List Char} (h : ∀ c ∈ text, c.utf8Size = 1) :
    (utf8 text).length = text.length := by
  have hbytes : utf8 text = text.flatMap String.utf8EncodeChar := by
    rw [utf8, String.toByteArray_ofList]
    simp [List.utf8Encode]
  rw [hbytes]
  clear hbytes
  induction text with
  | nil => rfl
  | cons c text ih =>
    obtain ⟨hc, htext⟩ := List.forall_mem_cons.mp h
    rw [List.flatMap_cons, List.length_append, String.length_utf8EncodeChar, hc, ih htext,
      List.length_cons, Nat.add_comm]

/-- What strings are compared by: their bytes, the first difference deciding. -/
def nameKey (text : List Char) : List Nat := (utf8 text).map UInt8.toNat

theorem nameKey_injective : Function.Injective nameKey := by
  intro a b h
  exact utf8_injective (List.map_injective_iff.mpr (fun _ _ => UInt8.toNat_inj.mp) h)

/-! ## Values -/

/-- A writer, and a reader that accepts what it writes and nothing else. -/
structure ValueCodec (V : Type) where
  write : V → Bytes
  read : Reader → Except BackendError (V × Reader)
  forward : ∀ (p : Nat) (tail : Bytes) (v : V), ∃ q, read ⟨p, write v ++ tail⟩ = .ok (v, ⟨q, tail⟩)
  exact : ∀ {r r' : Reader} {v : V}, read r = .ok (v, r') → r.rest = write v ++ r'.rest

/-! ## Entries in ascending order -/

section Ascending

variable {V : Type}

/-- Entries that may follow a name: they ascend, from above it. -/
def AscendsFrom (prev : Option (List Char)) (entries : List (List Char × V)) : Prop :=
  entries.Pairwise (fun a b => nameKey a.1 < nameKey b.1) ∧
    ∀ p ∈ prev, ∀ e ∈ entries, nameKey p < nameKey e.1

theorem AscendsFrom.nil (prev : Option (List Char)) : AscendsFrom prev ([] : List (List Char × V)) :=
  ⟨List.Pairwise.nil, by simp⟩

theorem AscendsFrom.cons {prev : Option (List Char)} {name : List Char} {v : V}
    {entries : List (List Char × V)} (hname : ∀ p ∈ prev, nameKey p < nameKey name)
    (h : AscendsFrom (some name) entries) : AscendsFrom prev ((name, v) :: entries) := by
  refine ⟨List.pairwise_cons.mpr ⟨h.2 name rfl, h.1⟩, ?_⟩
  intro p hp e he
  rcases List.mem_cons.mp he with rfl | he
  · exact hname p hp
  · exact (hname p hp).trans (h.2 name rfl e he)

theorem AscendsFrom.tail {prev : Option (List Char)} {name : List Char} {v : V}
    {entries : List (List Char × V)} (h : AscendsFrom prev ((name, v) :: entries)) :
    (∀ p ∈ prev, nameKey p < nameKey name) ∧ AscendsFrom (some name) entries := by
  refine ⟨fun p hp => h.2 p hp _ List.mem_cons_self, (List.pairwise_cons.mp h.1).2, ?_⟩
  intro p hp e he
  cases hp
  exact (List.pairwise_cons.mp h.1).1 e he

/-- `BTreeMap::insert` of a name that is not there yet. -/
def insertNamed (entries : { entries : List (List Char × V) // AscendsFrom none entries })
    (name : List Char) (v : V) (hnew : ∀ e ∈ entries.1, e.1 ≠ name) :
    { entries : List (List Char × V) // AscendsFrom none entries } :=
  ⟨entries.1.orderedInsert (KeyLe fun e => nameKey e.1) (name, v),
    orderedInsert_ascending entries.2.1 fun e he h => hnew e he (nameKey_injective h), by simp⟩

variable (c : ValueCodec V) (badName badOrder : BackendError) (bad : String → BackendError)

def writeNamed (e : List Char × V) : Bytes := writeDelimited (utf8 e.1) ++ c.write e.2

/-- `n` entries, each above the one before. -/
def readAscending : Nat → (prev : Option (List Char)) → Reader →
    Except BackendError ({ entries : List (List Char × V) // AscendsFrom prev entries } × Reader)
  | 0, prev, r => .ok (⟨[], .nil prev⟩, r)
  | n + 1, prev, r => do
    let (bytes, r) ← r.readDelimited bad
    match ofUtf8 bytes with
    | none => .error badName
    | some name =>
      if hname : ∀ p ∈ prev, nameKey p < nameKey name then do
        let (v, r) ← c.read r
        let (rest, r) ← readAscending n (some name) r
        .ok (⟨(name, v) :: rest.1, .cons hname rest.2⟩, r)
      else .error badOrder

/-- By induction on the entries: each is read back, and the reader stands where the next begins. -/
theorem readAscending_append (entries : List (List Char × V))
    (hfits : ∀ e ∈ entries, (utf8 e.1).length < 2 ^ 64) (tail : Bytes) :
    ∀ (prev : Option (List Char)) (p : Nat) (h : AscendsFrom prev entries),
      ∃ q, readAscending c badName badOrder bad entries.length prev
          ⟨p, entries.flatMap (writeNamed c) ++ tail⟩ = .ok (⟨entries, h⟩, ⟨q, tail⟩) := by
  induction entries with
  | nil =>
    intro prev p h
    exact ⟨p, rfl⟩
  | cons e entries ih =>
    obtain ⟨name, v⟩ := e
    intro prev p h
    obtain ⟨hname, hrest⟩ := h.tail
    obtain ⟨q, hvalue⟩ := c.forward (p + 8 + (utf8 name).length)
      (entries.flatMap (writeNamed c) ++ tail) v
    obtain ⟨q', hentries⟩ :=
      ih (fun e he => hfits e (List.mem_cons_of_mem _ he)) (some name) q hrest
    refine ⟨q', ?_⟩
    rw [List.length_cons, readAscending, List.flatMap_cons, writeNamed]
    simp only [List.append_assoc, Reader.readDelimited_append _ _ (hfits _ List.mem_cons_self),
      ofUtf8_utf8, hvalue, hentries, bind, Except.bind]
    exact dif_pos hname

variable {c badName badOrder bad}

/-- By induction on the count: what was consumed is what the entries are written as. -/
theorem readAscending_exact {n : Nat} {prev : Option (List Char)} {r r' : Reader}
    {out : { entries : List (List Char × V) // AscendsFrom prev entries }}
    (h : readAscending c badName badOrder bad n prev r = .ok (out, r')) :
    out.1.length = n ∧ (∀ e ∈ out.1, (utf8 e.1).length < 2 ^ 64) ∧
      r.rest = out.1.flatMap (writeNamed c) ++ r'.rest := by
  induction n generalizing prev r out with
  | zero =>
    cases h
    exact ⟨rfl, by simp, rfl⟩
  | succ n ih =>
    obtain ⟨⟨bytes, r₁⟩, hbytes, h⟩ := Lib.ok_of_bind h
    dsimp only at h
    split at h
    · cases h
    · next name hname =>
      split at h
      · next habove =>
        obtain ⟨⟨v, r₂⟩, hvalue, h⟩ := Lib.ok_of_bind h
        obtain ⟨⟨rest, r₃⟩, hrest, h⟩ := Lib.ok_of_bind h
        cases h
        obtain ⟨hread, hlen⟩ := Reader.readDelimited_exact hbytes
        rw [ofUtf8_exact hname] at hread hlen
        obtain ⟨hcount, hfits, htail⟩ := ih hrest
        refine ⟨by rw [List.length_cons, hcount], List.forall_mem_cons.mpr ⟨hlen, hfits⟩, ?_⟩
        rw [hread, c.exact hvalue, htail, List.flatMap_cons, writeNamed]
        simp only [List.append_assoc]
      · cases h

end Ascending

end NessieStore
