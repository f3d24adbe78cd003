import Mathlib.Data.List.Basic
import Mathlib.Order.Basic
import NessieStore.Core.Hex

/-!
# Digests

A digest is a hash of bytes and the algorithm that produced it (`nessie-backend-core`, `digest.rs`).
Three forms: the value itself, the text `<algo>:<hex>` (`toText`, `ofText`), and the multihash bytes
`<multicodec><len><digest>` (`toMultihashBytes`, `ofMultihashBytes`).

The hash functions are other people's code, so they are a parameter (`HashFn`): all that is built in
is the length of their output. Where an argument needs that two contents of one digest are the same
bytes, it asks for `CollisionFree` on a named set of contents. It cannot ask for more: no function
onto 32 bytes is injective.
-/

set_option autoImplicit false

namespace NessieStore

/-- The content of a blob or a file. -/
abbrev Bytes := List UInt8

/-- The hash algorithm behind a digest. -/
inductive DigestAlgo
  | blake3
  | sha256
deriving DecidableEq, Repr

namespace DigestAlgo

/-- `DigestAlgo::DEFAULT`. -/
def default : DigestAlgo := blake3

def multicodec : DigestAlgo → UInt8
  | blake3 => 0x1e
  | sha256 => 0x12

def digestLen : DigestAlgo → Nat
  | blake3 | sha256 => 32

def name : DigestAlgo → List Char
  | blake3 => "blake3".toList
  | sha256 => "sha2-256".toList

def fromMulticodec (code : UInt8) : Option DigestAlgo :=
  if code = 0x1e then some blake3 else if code = 0x12 then some sha256 else none

def fromName (text : List Char) : Option DigestAlgo :=
  if text = "blake3".toList then some blake3
  else if text = "sha2-256".toList then some sha256
  else none

@[simp] theorem fromMulticodec_multicodec (a : DigestAlgo) :
    fromMulticodec a.multicodec = some a := by
  cases a <;> rfl

theorem multicodec_of_fromMulticodec {code : UInt8} {a : DigestAlgo}
    (h : fromMulticodec code = some a) : a.multicodec = code := by
  unfold fromMulticodec at h
  split at h
  · next hcode => cases h; exact hcode.symm
  · split at h
    · next hcode => cases h; exact hcode.symm
    · cases h

@[simp] theorem fromName_name (a : DigestAlgo) : fromName a.name = some a := by
  cases a <;> rfl

theorem name_of_fromName {text : List Char} {a : DigestAlgo} (h : fromName text = some a) :
    a.name = text := by
  unfold fromName at h
  split at h
  · next htext => cases h; exact htext.symm
  · split at h
    · next htext => cases h; exact htext.symm
    · cases h

theorem colon_notMem_name (a : DigestAlgo) : ':' ∉ a.name := by
  cases a <;> decide

end DigestAlgo

/-- A hash and the algorithm that produced it. There is no other way to get one than hashing or
parsing, and both give the algorithm's own length. -/
structure Digest where
  algo : DigestAlgo
  bytes : Bytes
  len : bytes.length = algo.digestLen
deriving DecidableEq

/-- The two hash functions, `blake3` and `sha2` in the source. -/
structure HashFn where
  hash : DigestAlgo → Bytes → Bytes
  len : ∀ algo data, (hash algo data).length = algo.digestLen

/-- No two of the contents in `used` share a hash. -/
def HashFn.CollisionFree (H : HashFn) (used : Bytes → Prop) : Prop :=
  ∀ algo b b', used b → used b' → H.hash algo b = H.hash algo b' → b = b'

namespace Digest

variable (H : HashFn)

def computeWith (algo : DigestAlgo) (data : Bytes) : Digest :=
  ⟨algo, H.hash algo data, H.len algo data⟩

def compute (data : Bytes) : Digest := computeWith H .default data

/-- `data` hashes, under the digest's own algorithm, to the digest. -/
def verify (d : Digest) (data : Bytes) : Bool := computeWith H d.algo data = d

variable {H}

theorem verify_iff {d : Digest} {data : Bytes} :
    d.verify H data = true ↔ H.hash d.algo data = d.bytes := by
  unfold verify computeWith
  rw [decide_eq_true_iff]
  constructor
  · intro h
    exact congrArg Digest.bytes h
  · intro h
    cases d
    simp_all

/-- Two verified contents of one digest are the same bytes. -/
theorem verify_unique {used : Bytes → Prop} (hcf : H.CollisionFree used) {d : Digest}
    {b b' : Bytes} (hb : used b) (hb' : used b') (h : d.verify H b = true)
    (h' : d.verify H b' = true) : b = b' :=
  hcf d.algo b b' hb hb' ((verify_iff.mp h).trans (verify_iff.mp h').symm)

end Digest

/-! ## The text form -/

/-- `DigestParseError`. -/
inductive DigestParseError
  | missingSeparator
  | unknownAlgo (name : List Char)
  | unknownMulticodec (code : UInt8)
  | badHex
  | truncated
  | wrongLength (expected actual : Nat)
deriving DecidableEq

/-- `str::split_once` at a character. -/
def splitOnce (sep : Char) : List Char → Option (List Char × List Char)
  | [] => none
  | c :: cs => if c = sep then some ([], cs) else (splitOnce sep cs).map fun p => (c :: p.1, p.2)

theorem splitOnce_append {sep : Char} {name rest : List Char} (h : sep ∉ name) :
    splitOnce sep (name ++ sep :: rest) = some (name, rest) := by
  induction name with
  | nil => simp [splitOnce]
  | cons c name ih =>
    simp only [List.mem_cons, not_or] at h
    rw [List.cons_append, splitOnce, if_neg (Ne.symm h.1), ih h.2]
    rfl

theorem splitOnce_exact {sep : Char} {s name rest : List Char}
    (h : splitOnce sep s = some (name, rest)) : s = name ++ sep :: rest ∧ sep ∉ name := by
  induction s generalizing name with
  | nil => cases h
  | cons c s ih =>
    rw [splitOnce] at h
    split at h
    · next hc =>
      cases h
      exact ⟨by rw [hc, List.nil_append], List.not_mem_nil⟩
    · next hc =>
      obtain ⟨⟨name, rest⟩, hsplit, heq⟩ := Option.map_eq_some_iff.mp h
      cases heq
      obtain ⟨hs, hname⟩ := ih hsplit
      exact ⟨by rw [hs, List.cons_append], List.not_mem_cons_of_ne_of_not_mem (Ne.symm hc) hname⟩

/-- `str::rsplit_once`: at the last place where `sep` stands. -/
def rsplitOnce (sep : List Char) : List Char → Option (List Char × List Char)
  | [] => none
  | c :: cs =>
    match rsplitOnce sep cs with
    | some (front, back) => some (c :: front, back)
    | none => if sep.isPrefixOf (c :: cs) then some ([], (c :: cs).drop sep.length) else none

theorem rsplitOnce_of_notMem (sep : List Char) {c : Char} {s : List Char} (h : c ∉ s) :
    rsplitOnce (c :: sep) s = none := by
  induction s with
  | nil => rfl
  | cons a s ih =>
    rw [List.mem_cons, not_or] at h
    rw [rsplitOnce, ih h.2]
    have hne : (c == a) = false := by simpa using h.1
    simp [List.isPrefixOf, hne]

/-- A name is split where the separator stands, when its first character stands nowhere else. -/
theorem rsplitOnce_append {c : Char} {sep front back : List Char} (hsep : c ∉ sep)
    (hback : c ∉ back) :
    rsplitOnce (c :: sep) (front ++ c :: sep ++ back) = some (front, back) := by
  induction front with
  | nil =>
    have hrest : c ∉ sep ++ back := by
      rw [List.mem_append, not_or]
      exact ⟨hsep, hback⟩
    have hsplit := rsplitOnce_of_notMem sep hrest
    have hfirst : (c :: sep).isPrefixOf (c :: (sep ++ back)) = true :=
      List.isPrefixOf_iff_prefix.mpr ⟨back, rfl⟩
    rw [List.nil_append, List.cons_append, rsplitOnce, hsplit]
    dsimp only
    rw [if_pos hfirst]
    simp
  | cons a front ih => simp only [List.cons_append, rsplitOnce, ih]

namespace Digest

/-- `Display`. -/
def toText (d : Digest) : List Char := d.algo.name ++ ':' :: Hex.encode d.bytes

/-- `FromStr`. -/
def ofText (s : List Char) : Except DigestParseError Digest :=
  match splitOnce ':' s with
  | none => .error .missingSeparator
  | some (name, hex) =>
    match DigestAlgo.fromName name with
    | none => .error (.unknownAlgo name)
    | some algo =>
      match Hex.decode hex with
      | none => .error .badHex
      | some bytes =>
        if h : bytes.length = algo.digestLen then .ok ⟨algo, bytes, h⟩
        else .error (.wrongLength algo.digestLen bytes.length)

/-- A text is read as a digest iff its hex decodes to the digest's bytes behind the name. -/
theorem ofText_eq_ok_iff {s : List Char} {d : Digest} :
    ofText s = .ok d ↔ ∃ hex, s = d.algo.name ++ ':' :: hex ∧ Hex.decode hex = some d.bytes := by
  constructor
  · intro h
    unfold ofText at h
    split at h
    · cases h
    · next name hex hsplit =>
      split at h
      · cases h
      · next algo halgo =>
        split at h
        · cases h
        · next bytes hbytes =>
          split at h
          · cases h
            refine ⟨hex, ?_, hbytes⟩
            rw [DigestAlgo.name_of_fromName halgo]
            exact (splitOnce_exact hsplit).1
          · cases h
  · rintro ⟨hex, rfl, hhex⟩
    have hsplit : splitOnce ':' (d.algo.name ++ ':' :: hex) = some (d.algo.name, hex) :=
      splitOnce_append d.algo.colon_notMem_name
    simp only [ofText, hsplit, DigestAlgo.fromName_name, hhex, d.len, dite_true]

theorem ofText_toText (d : Digest) : ofText d.toText = .ok d :=
  ofText_eq_ok_iff.mpr ⟨Hex.encode d.bytes, rfl, Hex.decode_encode d.bytes⟩

/-- Lowercase hex behind the name of an algorithm is read as that algorithm's digest with this hex. -/
theorem ofText_lower {algo : DigestAlgo} {hex : List Char} (hlower : ∀ c ∈ hex, Hex.isLower c = true)
    {d : Digest} :
    ofText (algo.name ++ ':' :: hex) = .ok d ↔ d.algo = algo ∧ Hex.encode d.bytes = hex := by
  rw [ofText_eq_ok_iff]
  constructor
  · rintro ⟨hex', htext, hhex⟩
    have hsplit : splitOnce ':' (algo.name ++ ':' :: hex) = some (algo.name, hex) :=
      splitOnce_append algo.colon_notMem_name
    rw [htext, splitOnce_append d.algo.colon_notMem_name, Option.some.injEq, Prod.mk.injEq] at hsplit
    obtain ⟨hname, rfl⟩ := hsplit
    have halgo := DigestAlgo.fromName_name d.algo
    rw [hname, DigestAlgo.fromName_name] at halgo
    refine ⟨(Option.some.inj halgo).symm, ?_⟩
    rw [← Hex.decode_eq_some_iff.mp hhex, Hex.map_toLower hlower]
  · rintro ⟨rfl, rfl⟩
    exact ⟨_, rfl, Hex.decode_encode d.bytes⟩

theorem ofText_sha256 {hex : List Char} (hlower : ∀ c ∈ hex, Hex.isLower c = true) {d : Digest} :
    ofText ("sha2-256:".toList ++ hex) = .ok d ↔ d.algo = .sha256 ∧ Hex.encode d.bytes = hex := by
  have hname : "sha2-256:".toList = DigestAlgo.sha256.name ++ [':'] := by decide
  rw [hname, List.append_assoc, List.singleton_append, ofText_lower hlower]

/-- Every lowercase hex of the right length is some digest's. -/
theorem exists_hex_eq (algo : DigestAlgo) {hex : List Char} (hlen : hex.length = 64)
    (hlower : ∀ c ∈ hex, Hex.isLower c = true) :
    ∃ d : Digest, d.algo = algo ∧ Hex.encode d.bytes = hex := by
  obtain ⟨bs, rfl⟩ := Hex.exists_encode_eq (by rw [hlen]) hlower
  rw [Hex.length_encode] at hlen
  refine ⟨⟨algo, bs, ?_⟩, rfl, rfl⟩
  cases algo <;> simp only [DigestAlgo.digestLen] <;> omega

theorem toText_injective : Function.Injective toText := by
  intro d d' h
  have hok := ofText_toText d
  rw [h, ofText_toText d'] at hok
  exact (Except.ok.inj hok).symm

/-! ## The multihash form -/

def toMultihashBytes (d : Digest) : Bytes :=
  d.algo.multicodec :: UInt8.ofNat d.algo.digestLen :: d.bytes

def ofMultihashBytes : Bytes → Except DigestParseError Digest
  | code :: len :: digest =>
    match DigestAlgo.fromMulticodec code with
    | none => .error (.unknownMulticodec code)
    | some algo =>
      if digest.length ≠ len.toNat then .error .truncated
      else if h : digest.length = algo.digestLen then .ok ⟨algo, digest, h⟩
      else .error (.wrongLength algo.digestLen digest.length)
  | _ => .error .truncated

theorem ofMultihashBytes_toMultihashBytes (d : Digest) :
    ofMultihashBytes d.toMultihashBytes = .ok d := by
  have hlen : (UInt8.ofNat d.algo.digestLen).toNat = d.algo.digestLen := by
    cases d.algo <;> rfl
  simp only [toMultihashBytes, ofMultihashBytes, DigestAlgo.fromMulticodec_multicodec, d.len, hlen,
    ne_eq, not_true_eq_false, if_false, dite_true]

/-- Nothing but the multihash form of a digest parses as that digest. -/
theorem ofMultihashBytes_exact {bytes : Bytes} {d : Digest} (h : ofMultihashBytes bytes = .ok d) :
    bytes = d.toMultihashBytes := by
  unfold ofMultihashBytes at h
  split at h
  · next code len digest =>
    split at h
    · cases h
    · next algo halgo =>
      split at h
      · cases h
      · next hlen =>
        split at h
        · next hfit =>
          cases h
          have hlen' : len = UInt8.ofNat algo.digestLen := by
            apply UInt8.toNat_inj.mp
            rw [← not_not.mp hlen, hfit]
            cases algo <;> rfl
          simp only [toMultihashBytes, DigestAlgo.multicodec_of_fromMulticodec halgo, hlen']
        · cases h
  · cases h

theorem toMultihashBytes_injective : Function.Injective toMultihashBytes := by
  intro d d' h
  have hok := ofMultihashBytes_toMultihashBytes d
  rw [h, ofMultihashBytes_toMultihashBytes] at hok
  exact (Except.ok.inj hok).symm

end Digest

/-- A hash for concrete runs: the length and the first bytes, so it tells short contents apart. -/
def HashFn.short : HashFn where
  hash algo data :=
    (UInt8.ofNat data.length :: data ++ List.replicate algo.digestLen 0).take algo.digestLen
  len algo data := by
    simp only [List.cons_append, List.length_take, List.length_cons, List.length_append,
      List.length_replicate]
    omega

theorem HashFn.short_collisionFree : HashFn.short.CollisionFree fun b => b.length < 32 := by
  intro algo b b' hb hb' h
  have hlen : algo.digestLen = 32 := by cases algo <;> rfl
  simp only [short, hlen, List.cons_append, List.take_succ_cons, List.cons.injEq] at h
  have hsame : b.length = b'.length := by
    have hmod := congrArg UInt8.toNat h.1
    simp only [UInt8.toNat_ofNat'] at hmod
    omega
  have htake := congrArg (List.take b.length) h.2
  rw [List.take_take, List.take_take, Nat.min_eq_left (by omega), List.take_left, hsame,
    List.take_left] at htake
  exact htake

end NessieStore
