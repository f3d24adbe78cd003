import NessieStore.Core.Ascending
import NessieStore.Core.Text

/-!
# S3 object keys

How an object key names a blob (`nessie-s3`, `key.rs`, and `canonical_key` of `service.rs`). A key is
read from its end: the last segment is a hash, the two before it may be a shard and a kind, and what
stands before them is the client's own business. Two shapes are read, `{kind}/{xx}/{hash}` and a flat
`{hash}` behind segments that are no kinds.

The shapes overlap. The flat rule refuses a key with a kind in either of the two places before the
hash, and `ac` is both a kind and a shard: a hash that begins with `ac` is refused behind its own shard
when the segment before is no kind (`sharded_ac_refused`). No other hash is, and what is read is
always the digest whose hex is the last segment.
-/

set_option autoImplicit false

namespace NessieStore.S3

/-- What an object key names. -/
inductive ObjectKey
  | cas (digest : Digest)
  /-- Framed by the client, so its bytes do not hash to its name. -/
  | compressed
  | notContentAddressed
deriving DecidableEq

def isLowerHex (c : Char) : Bool := c.isDigit || (c.isLower && c ≤ 'f')

/-- 64 lowercase hex digits as a SHA-256 digest. -/
def sha256Digest (hash : Text) : Option Digest :=
  if hash.length ≠ 64 ∨ !hash.all isLowerHex then none
  else (Digest.ofText ("sha2-256:".toList ++ hash)).toOption

def isKind (segment : Text) : Bool :=
  segment = "cas".toList ∨ segment = "cas.v2".toList ∨ segment = "ac".toList ∨ segment = "raw".toList

namespace ObjectKey

/-- The flat rule, with the segments that stand in the places of a shard and a kind. -/
def flat (hash : Text) (preceding : List Text) : Option ObjectKey :=
  if preceding.any isKind then none else (sha256Digest hash).map cas

/-- `parse` on the segments, the last one first. -/
def ofSegments : List Text → Option ObjectKey
  | [] => none
  | [hash] => flat hash []
  | [hash, shard] => flat hash [shard]
  | hash :: shard :: kind :: _ =>
    -- `len` counts bytes, so a shard may be one character
    if (utf8 shard).length = 2 ∧ shard <+: hash then
      if kind = "cas".toList then (sha256Digest hash).map cas
      else if kind = "cas.v2".toList then some compressed
      else if kind = "ac".toList ∨ kind = "raw".toList then some notContentAddressed
      else flat hash [shard, kind]
    else flat hash [shard, kind]

/-- `key.rsplit('/')`. -/
def rsplit (key : Text) : List Text := (key.splitOn '/').reverse

def parse (key : Text) : Option ObjectKey := ofSegments (rsplit key)

end ObjectKey

/-- The hex that names an object. -/
def etagOf (d : Digest) : Text := (rsplitOnce ":".toList d.toText).elim d.toText Prod.snd

def canonicalKey (d : Digest) : Text :=
  "cas/".toList ++ (etagOf d).take 2 ++ '/' :: etagOf d

/-! ## Hashes -/

theorem isLowerHex_eq (c : Char) : isLowerHex c = Hex.isLower c := by
  have hlower : c.isLower = (decide (c.val ≥ 'a'.val) && decide (c.val ≤ 'z'.val)) := rfl
  rw [isLowerHex, Hex.isLower, Bool.eq_iff_iff, hlower]
  simp only [Char.isDigit, Char.le_def, Bool.or_eq_true, Bool.and_eq_true,
    decide_eq_true_eq, ge_iff_le, UInt32.le_iff_toNat_le]
  have hz : 'f'.val.toNat ≤ 'z'.val.toNat := by decide
  omega

theorem sha256Digest_eq_some_iff {hash : Text} {d : Digest} :
    sha256Digest hash = some d ↔
      hash.length = 64 ∧ (∀ c ∈ hash, isLowerHex c = true) ∧ d.algo = .sha256 ∧
        Hex.encode d.bytes = hash := by
  have hform : ¬ (hash.length ≠ 64 ∨ !hash.all isLowerHex) ↔
      hash.length = 64 ∧ ∀ c ∈ hash, isLowerHex c = true := by simp
  unfold sha256Digest
  split
  · next hbad =>
    refine iff_of_false (by simp) fun h => ?_
    exact hform.mpr ⟨h.1, h.2.1⟩ hbad
  · next hgood =>
    obtain ⟨hlen, hhex⟩ := hform.mp hgood
    have hlower : ∀ c ∈ hash, Hex.isLower c = true := fun c hc => isLowerHex_eq c ▸ hhex c hc
    rw [Lib.toOption_eq_some_iff, Digest.ofText_sha256 hlower]
    exact ⟨fun h => ⟨hlen, hhex, h⟩, fun h => h.2.2⟩

theorem etagOf_eq (d : Digest) : etagOf d = Hex.encode d.bytes := by
  have hsplit : rsplitOnce ":".toList d.toText = some (d.algo.name, Hex.encode d.bytes) := by
    rw [Digest.toText, List.append_cons]
    exact rsplitOnce_append List.not_mem_nil (Hex.notMem_encode (by decide) d.bytes)
  rw [etagOf, hsplit]
  rfl

theorem sha256Digest_encode {d : Digest} (h : d.algo = .sha256) :
    sha256Digest (Hex.encode d.bytes) = some d := by
  refine sha256Digest_eq_some_iff.mpr ⟨?_, ?_, h, rfl⟩
  · rw [Hex.length_encode, d.len, h]
    rfl
  · intro c hc
    rw [isLowerHex_eq]
    exact Hex.isLower_of_mem_encode hc

/-! ## Keys by their segments -/

namespace ObjectKey

theorem rsplit_of_notMem {s : Text} (h : '/' ∉ s) : rsplit s = [s] := by
  rw [rsplit, List.splitOn_eq_singleton h, List.reverse_singleton]

theorem rsplit_append (p : Text) {s : Text} (h : '/' ∉ s) : rsplit (p ++ '/' :: s) = s :: rsplit p := by
  rw [rsplit, List.splitOn_append_cons_self, List.splitOn_eq_singleton h, List.reverse_append,
    List.reverse_singleton, List.singleton_append, rsplit]

variable {hash shard : Text} {before : List Text}

/-- Without a kind in its place, the three-segment shape does not apply. -/
theorem ofSegments_eq_flat (h : ∀ s ∈ before.drop 1, isKind s = false) :
    ofSegments (hash :: before) = flat hash (before.take 2) := by
  match before, h with
  | [], _ => rfl
  | [shard], _ => rfl
  | shard :: kind :: rest, h =>
    have hkind := h kind List.mem_cons_self
    simp only [isKind, decide_eq_false_iff_not, not_or] at hkind
    obtain ⟨hcas, hv2, hac, hraw⟩ := hkind
    rw [ofSegments, if_neg hcas, if_neg hv2, if_neg (not_or.mpr ⟨hac, hraw⟩), ite_self]
    rfl

/-- Behind segments that are no kinds a hash is read flat. -/
theorem ofSegments_flat (h : ∀ s ∈ before, isKind s = false) :
    ofSegments (hash :: before) = (sha256Digest hash).map cas := by
  rw [ofSegments_eq_flat fun s hs => h s (List.mem_of_mem_drop hs), flat, if_neg]
  rw [List.any_eq_true]
  rintro ⟨s, hs, hkind⟩
  rw [h s (List.mem_of_mem_take hs)] at hkind
  cases hkind

/-- A kind in the place of the shard, behind segments that are no kinds, is refused. -/
theorem ofSegments_kind (hkind : isKind shard = true) (h : ∀ s ∈ before, isKind s = false) :
    ofSegments (hash :: shard :: before) = none := by
  have hrest : ∀ s ∈ (shard :: before).drop 1, isKind s = false := h
  rw [ofSegments_eq_flat hrest, List.take_succ_cons, flat, if_pos]
  rw [List.any_cons, hkind, Bool.true_or]

/-- Behind `cas` and its own shard a hash is read as it is. -/
theorem ofSegments_cas (hlen : (utf8 shard).length = 2) (hpre : shard <+: hash) :
    ofSegments (hash :: shard :: "cas".toList :: before) = (sha256Digest hash).map cas := by
  rw [ofSegments, if_pos ⟨hlen, hpre⟩, if_pos rfl]

/-- What is read as a blob is read from the last segment. -/
theorem sha256Digest_of_ofSegments {segs : List Text} {d : Digest}
    (h : ofSegments segs = some (cas d)) :
    ∃ hash before, segs = hash :: before ∧ sha256Digest hash = some d := by
  have hmap : ∀ {hash : Text}, (sha256Digest hash).map cas = some (cas d) →
      sha256Digest hash = some d := by
    intro hash h
    obtain ⟨d', hd', hcas⟩ := Option.map_eq_some_iff.mp h
    cases hcas
    exact hd'
  have hflat : ∀ {hash : Text} {l : List Text}, flat hash l = some (cas d) →
      sha256Digest hash = some d := by
    intro hash l h
    unfold flat at h
    split at h
    · cases h
    · exact hmap h
  match segs, h with
  | [hash], h => exact ⟨hash, [], rfl, hflat h⟩
  | [hash, shard], h => exact ⟨hash, [shard], rfl, hflat h⟩
  | hash :: shard :: kind :: rest, h =>
    refine ⟨hash, _, rfl, ?_⟩
    rw [ofSegments] at h
    split at h
    · split at h
      · exact hmap h
      · split at h
        · cases h
        · split at h
          · cases h
          · exact hflat h
    · exact hflat h

end ObjectKey

/-! ## The spellings of a content key -/

/-- A hash behind its shard. -/
def sharded (h p : Text) : Text := p ++ '/' :: (h.take 2 ++ '/' :: h)

/-- The keys that name the blob of every hash: flat, flat behind `p`, and sharded behind `cas` and
anything. -/
def spellings (h p q : Text) : List Text :=
  [h, p ++ '/' :: h, sharded h (q ++ '/' :: "cas".toList)]

section Spellings

variable {h : Text}

theorem slash_notMem_hash (hhex : ∀ c ∈ h, isLowerHex c = true) : '/' ∉ h :=
  fun hmem => absurd (hhex _ hmem) (by decide)

theorem rsplit_sharded (hhex : ∀ c ∈ h, isLowerHex c = true) (p : Text) :
    ObjectKey.rsplit (sharded h p) = h :: h.take 2 :: ObjectKey.rsplit p := by
  have hshard : '/' ∉ h.take 2 := fun hmem =>
    slash_notMem_hash hhex (List.mem_of_mem_take hmem)
  rw [sharded, ← List.cons_append, ← List.append_assoc, ObjectKey.rsplit_append _ (slash_notMem_hash hhex),
    ObjectKey.rsplit_append _ hshard]

/-- A hash behind `cas` and its shard, whatever stands before. -/
theorem ofSegments_sharded (hlen : h.length = 64) (hhex : ∀ c ∈ h, isLowerHex c = true)
    (before : List Text) :
    ObjectKey.ofSegments (h :: h.take 2 :: "cas".toList :: before) = (sha256Digest h).map .cas := by
  refine ObjectKey.ofSegments_cas ?_ (List.take_prefix 2 h)
  rw [length_utf8, List.length_take, hlen]
  · rfl
  · intro c hc
    have hlower := hhex c (List.mem_of_mem_take hc)
    rw [isLowerHex_eq] at hlower
    exact Hex.utf8Size_of_isLower hlower

/-- The only kind that is as long as a shard. -/
theorem isKind_shard (hlen : h.length = 64) :
    isKind (h.take 2) = true ↔ h.take 2 = "ac".toList := by
  have htwo : (h.take 2).length = 2 := by
    rw [List.length_take, hlen]
    rfl
  have hne : ∀ s : Text, s.length ≠ 2 → h.take 2 ≠ s := fun s hs heq => hs (heq ▸ htwo)
  rw [isKind, decide_eq_true_iff]
  constructor
  · rintro (heq | heq | heq | heq)
    · exact absurd heq (hne _ (by decide))
    · exact absurd heq (hne _ (by decide))
    · exact heq
    · exact absurd heq (hne _ (by decide))
  · intro heq
    exact .inr (.inr (.inl heq))

/-- Behind segments that are no kinds, a hash behind its shard is read flat, unless the shard is a
kind itself. -/
theorem ofSegments_shard (hlen : h.length = 64) {before : List Text}
    (hbefore : ∀ s ∈ before, isKind s = false) :
    ObjectKey.ofSegments (h :: h.take 2 :: before) =
      if h.take 2 = "ac".toList then none else (sha256Digest h).map .cas := by
  split
  · next hac => exact ObjectKey.ofSegments_kind ((isKind_shard hlen).mpr hac) hbefore
  · next hac =>
    refine ObjectKey.ofSegments_flat (List.forall_mem_cons.mpr ⟨?_, hbefore⟩)
    rw [← Bool.not_eq_true, isKind_shard hlen]
    exact hac

end Spellings

/-- Canonical keys are read back. -/
theorem parse_canonicalKey {d : Digest} (hd : d.algo = .sha256) :
    ObjectKey.parse (canonicalKey d) = some (.cas d) := by
  obtain ⟨hlen, hhex, -⟩ := sha256Digest_eq_some_iff.mp (sha256Digest_encode hd)
  have hkey : canonicalKey d = sharded (Hex.encode d.bytes) "cas".toList := by
    have hcas : "cas/".toList = "cas".toList ++ ['/'] := by decide
    rw [canonicalKey, etagOf_eq, hcas, sharded]
    simp only [List.append_assoc, List.cons_append, List.nil_append]
  rw [ObjectKey.parse, hkey, rsplit_sharded hhex, ObjectKey.rsplit_of_notMem (by decide),
    ofSegments_sharded hlen hhex, sha256Digest_encode hd]
  rfl

/-- Every hash is read as its blob in the three spellings; behind its shard and segments that are no
kinds too, unless the shard is `ac`, and then the key is refused. What is read as a blob ends in its
hex, and canonical keys are read back. -/
theorem spellings_name_one_blob (h p q key : Text) (e : Digest) :
    (h.length = 64 → (∀ c ∈ h, isLowerHex c = true) → (∀ s ∈ p.splitOn '/', isKind s = false) →
      ∃ d : Digest, d.algo = .sha256 ∧ Hex.encode d.bytes = h ∧
        (∀ key ∈ spellings h p q, ObjectKey.parse key = some (.cas d)) ∧
        ObjectKey.parse (sharded h p) = if h.take 2 = "ac".toList then none else some (.cas d)) ∧
    (ObjectKey.parse key = some (.cas e) →
      (key.splitOn '/').getLast? = some (Hex.encode e.bytes)) ∧
    (e.algo = .sha256 → ObjectKey.parse (canonicalKey e) = some (.cas e)) := by
  refine ⟨?_, ?_, ?_⟩
  · intro hlen hhex hp
    have hp' : ∀ s ∈ ObjectKey.rsplit p, isKind s = false :=
      fun s hs => hp s (List.mem_reverse.mp hs)
    have hslash := slash_notMem_hash hhex
    have hlower : ∀ c ∈ h, Hex.isLower c = true := fun c hc => isLowerHex_eq c ▸ hhex c hc
    obtain ⟨d, halgo, hbytes⟩ := Digest.exists_hex_eq .sha256 hlen hlower
    have hdigest : (sha256Digest h).map ObjectKey.cas = some (.cas d) := by
      rw [← hbytes, sha256Digest_encode halgo]
      rfl
    refine ⟨d, halgo, hbytes, ?_, ?_⟩
    · simp only [spellings, List.forall_mem_cons, List.not_mem_nil, false_implies, implies_true,
        and_true, ObjectKey.parse]
      refine ⟨?_, ?_, ?_⟩
      · rw [ObjectKey.rsplit_of_notMem hslash, ← hdigest]
        exact ObjectKey.ofSegments_flat (List.forall_mem_nil _)
      · rw [ObjectKey.rsplit_append p hslash, ← hdigest]
        exact ObjectKey.ofSegments_flat hp'
      · rw [rsplit_sharded hhex, ObjectKey.rsplit_append q (by decide),
          ofSegments_sharded hlen hhex, hdigest]
    · rw [ObjectKey.parse, rsplit_sharded hhex, ofSegments_shard hlen hp', hdigest]
  · intro hkey
    obtain ⟨hash, before, hsegs, hhash⟩ := ObjectKey.sha256Digest_of_ofSegments hkey
    rw [← List.head?_reverse]
    show (ObjectKey.rsplit key).head? = _
    rw [hsegs, (sha256Digest_eq_some_iff.mp hhash).2.2.2]
    rfl
  · exact parse_canonicalKey

/-- A hash that begins with `ac` is refused behind its own shard. -/
theorem sharded_ac_refused :
    let h : Text := 'a' :: 'c' :: List.replicate 62 '0'
    let p : Text := "blobs".toList
    (h.length = 64 ∧ (∀ c ∈ h, isLowerHex c = true) ∧ ∀ s ∈ p.splitOn '/', isKind s = false) ∧
      ObjectKey.parse (sharded h p) = none := by
  intro h p
  have hlen : h.length = 64 := by decide
  have hhex : ∀ c ∈ h, isLowerHex c = true := List.all_eq_true.mp (by decide)
  have hp : ∀ s ∈ p.splitOn '/', isKind s = false := by decide
  refine ⟨⟨hlen, hhex, hp⟩, ?_⟩
  have hshard := ofSegments_shard hlen fun s hs => hp s (List.mem_reverse.mp hs)
  rw [ObjectKey.parse, rsplit_sharded hhex]
  exact hshard.trans (if_pos (by decide))

end NessieStore.S3
