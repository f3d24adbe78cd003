import Mathlib.Data.Finset.Card
import NessieStore.Core.Cas
import NessieStore.Lib.Ledger

/-!
# The local backends

The two stores that can sit beneath a `CasStore`: `DiskCas` (`nessie-cas-disk`) and `MemCas`
(`nessie-backend-mem`), at the granularity of whole blobs. A temporary file is private to the write
that fills it, so what the two share with other calls is the committed blobs, the quarantine
directory and the commit lock.

They differ in three places. A finished write replaces the file on disk and leaves an existing
entry in memory alone (`land`); only the disk has a quarantine; and only a disk file can fail
verification, so `MemCas` keeps the trait's default `verify`.
-/

set_option autoImplicit false

namespace NessieStore

open Lib

/-- `CasBackendKind`, the `[cas] backend` key. -/
inductive CasBackendKind
  | mem
  | disk
deriving DecidableEq, Repr

/-- `put_keyed`'s error for bytes of another digest. -/
def mismatch (d : Digest) : BackendError :=
  .invalidArgument (String.ofList ("put_keyed: bytes do not hash to ".toList ++ d.toText))

/-- `io_err`. -/
def ioErr (what e : String) : BackendError := .internal ("cas-disk " ++ what ++ ": " ++ e)

/-- The blobs one node holds. -/
structure LocalCas where
  kind : CasBackendKind
  blobs : Map Digest Bytes
  quarantined : Map QuarantineId Bytes
  /-- Held across `reclaim_if_corrupt`'s verify and unlink; a commit waits for it. -/
  commitLock : Bool

namespace LocalCas

variable (H : HashFn)

def size (c : LocalCas) (d : Digest) : Option Nat := (c.blobs.lookup d).map List.length

def has (c : LocalCas) (d : Digest) : Bool := (c.size d).isSome

/-- A disk read is verified before it is served. -/
def get (c : LocalCas) (d : Digest) : Except BackendError Bytes :=
  match c.blobs.lookup d with
  | none => .error (.blobNotFound d)
  | some bytes =>
    match c.kind with
    | .mem => .ok bytes
    | .disk =>
      if d.verify H bytes then .ok bytes
      else .error (.internal (String.ofList ("corrupt blob ".toList ++ d.toText)))

def verify (c : LocalCas) (d : Digest) : Except BackendError Bool :=
  match c.blobs.lookup d with
  | none => .error (.blobNotFound d)
  | some bytes =>
    match c.kind with
    | .mem => .ok true
    | .disk => .ok (d.verify H bytes)

/-- The last step of a write: `DiskCas::commit` renames over the file, `MemCas` keeps the entry it
has. -/
def land (c : LocalCas) (d : Digest) (bytes : Bytes) : LocalCas :=
  match c.kind with
  | .disk => { c with blobs := c.blobs.insert d bytes }
  | .mem => if c.has d then c else { c with blobs := c.blobs.insert d bytes }

def reclaim (c : LocalCas) (d : Digest) : Bool × LocalCas :=
  (c.has d, { c with blobs := c.blobs.erase d })

/-- The lowest `n` for which `<hex>.<n>` does not exist. -/
def freeSlot (c : LocalCas) (d : Digest) : Nat :=
  ((List.range (c.quarantined.keys.card + 1)).find? fun n =>
    (c.quarantined.lookup ⟨d, n⟩).isNone).getD 0

/-- The rename of `quarantine`, never over an earlier copy. -/
def setAside (c : LocalCas) (d : Digest) (bytes : Bytes) : LocalCas :=
  { c with
    blobs := c.blobs.erase d
    quarantined := c.quarantined.insert ⟨d, c.freeSlot d⟩ bytes }

/-- Rename the blob into the quarantine directory, then stat the file there. `stat` is the error of
that second call, if it fails: the answer is an error and the file has moved. -/
def quarantine (c : LocalCas) (d : Digest) (stat : Option String) :
    Except BackendError (Option QuarantinedBlob) × LocalCas :=
  match c.kind, c.blobs.lookup d with
  | .disk, some bytes =>
    match stat with
    | none => (.ok (some ⟨⟨d, c.freeSlot d⟩, d, bytes.length⟩), c.setAside d bytes)
    | some e => (.error (ioErr "stat quarantined blob" e), c.setAside d bytes)
  | _, _ => (.ok none, c)

/-- What `iter_local` may return: every blob once with its length, in any order. -/
def IterLocal (c : LocalCas) (l : List LocalBlob) : Prop :=
  (l.map LocalBlob.digest).Nodup ∧ (∀ b ∈ l, c.size b.digest = some b.sizeBytes) ∧
    ∀ d ∈ c.blobs.keys, d ∈ l.map LocalBlob.digest

instance (c : LocalCas) (l : List LocalBlob) : Decidable (c.IterLocal l) :=
  inferInstanceAs (Decidable (_ ∧ _ ∧ _))

/-- What `iter_quarantine` may return. -/
def IterQuarantine (c : LocalCas) (l : List QuarantinedBlob) : Prop :=
  (l.map QuarantinedBlob.id).Nodup ∧
    (∀ q ∈ l, q.digest = q.id.digest ∧
      (c.quarantined.lookup q.id).map List.length = some q.sizeBytes) ∧
    ∀ id ∈ c.quarantined.keys, id ∈ l.map QuarantinedBlob.id

instance (c : LocalCas) (l : List QuarantinedBlob) : Decidable (c.IterQuarantine l) :=
  inferInstanceAs (Decidable (_ ∧ _ ∧ _))

/-- The bytes of all live blobs. -/
def liveBytes (c : LocalCas) : Nat := c.blobs.total List.length

/-- The bytes of all quarantined files. -/
def quarantineBytes (c : LocalCas) : Nat := c.quarantined.total List.length

/-! ## What the operations do -/

theorem has_iff {c : LocalCas} {d : Digest} : c.has d = true ↔ ∃ b, c.blobs.lookup d = some b := by
  simp [has, size, Option.isSome_iff_exists]

theorem has_eq_false_iff {c : LocalCas} {d : Digest} :
    c.has d = false ↔ c.blobs.lookup d = none := by
  simp [has, size]

theorem has_of_get {H : HashFn} {c : LocalCas} {d : Digest} {bytes : Bytes}
    (h : c.get H d = .ok bytes) : c.has d = true := by
  unfold get at h
  split at h
  · cases h
  · next b hb => exact has_iff.mpr ⟨b, hb⟩

/-- A disk serves what it has if it verifies. -/
theorem get_disk {H : HashFn} {c : LocalCas} (hk : c.kind = .disk) {d : Digest} {b : Bytes} :
    c.get H d = .ok b ↔ c.blobs.lookup d = some b ∧ d.verify H b = true := by
  unfold get
  cases c.blobs.lookup d with
  | none => simp
  | some bytes =>
    simp only [hk, Option.some.injEq]
    constructor
    · intro h
      split at h
      · next hv => cases h; exact ⟨rfl, hv⟩
      · cases h
    · rintro ⟨rfl, hv⟩
      rw [if_pos hv]

@[simp] theorem land_kind (c : LocalCas) (d : Digest) (bytes : Bytes) :
    (c.land d bytes).kind = c.kind := by
  unfold land
  split
  · rfl
  · split <;> rfl

@[simp] theorem land_quarantined (c : LocalCas) (d : Digest) (bytes : Bytes) :
    (c.land d bytes).quarantined = c.quarantined := by
  unfold land
  split
  · rfl
  · split <;> rfl

@[simp] theorem land_commitLock (c : LocalCas) (d : Digest) (bytes : Bytes) :
    (c.land d bytes).commitLock = c.commitLock := by
  unfold land
  split
  · rfl
  · split <;> rfl

/-- After a landing the digest has the new bytes, or in memory the bytes it had; every other digest
is as before. -/
theorem lookup_land (c : LocalCas) (d d' : Digest) (bytes : Bytes) :
    (c.land d bytes).blobs.lookup d' =
      if d' = d then
        match c.kind with
        | .disk => some bytes
        | .mem => some ((c.blobs.lookup d).getD bytes)
      else c.blobs.lookup d' := by
  unfold land
  split
  · next hk => rw [Map.lookup_insert_eq]
  · next hk =>
    split
    · next hh =>
      obtain ⟨b, hb⟩ := has_iff.mp hh
      split
      · next hd => rw [hd, hb]; rfl
      · rfl
    · next hh =>
      have hnone : c.blobs.lookup d = none := has_eq_false_iff.mp (Bool.eq_false_iff.mpr hh)
      rw [Map.lookup_insert_eq, hnone]
      rfl

theorem lookup_land_disk {c : LocalCas} (h : c.kind = .disk) (d d' : Digest) (bytes : Bytes) :
    (c.land d bytes).blobs.lookup d' = if d' = d then some bytes else c.blobs.lookup d' := by
  rw [lookup_land, h]

theorem has_land (c : LocalCas) (d d' : Digest) (bytes : Bytes) :
    (c.land d bytes).has d' = (decide (d' = d) || c.has d') := by
  rw [has, size, lookup_land]
  by_cases h : d' = d
  · cases c.kind <;> simp [h]
  · simp [h, has, size]

@[simp] theorem has_reclaim (c : LocalCas) (d d' : Digest) :
    (c.reclaim d).2.has d' = (decide (d' ≠ d) && c.has d') := by
  simp only [reclaim, has, size, Map.lookup_erase_eq]
  by_cases h : d' = d <;> simp [h]

/-- The slot a quarantine takes is free. -/
theorem lookup_freeSlot (c : LocalCas) (d : Digest) :
    c.quarantined.lookup ⟨d, c.freeSlot d⟩ = none := by
  unfold freeSlot
  cases hf : (List.range (c.quarantined.keys.card + 1)).find? fun n =>
      (c.quarantined.lookup ⟨d, n⟩).isNone with
  | some n =>
    have hn := List.find?_some hf
    simpa using hn
  | none =>
    -- every slot of the range is taken, which is one file more than there are
    exfalso
    have htaken : (Finset.range (c.quarantined.keys.card + 1)).image (QuarantineId.mk d) ⊆
        c.quarantined.keys := by
      intro id hid
      obtain ⟨n, hn, rfl⟩ := Finset.mem_image.mp hid
      have hsome := List.find?_eq_none.mp hf n (List.mem_range.mpr (Finset.mem_range.mp hn))
      rw [Finmap.mem_keys, ← Finmap.lookup_isSome]
      simpa [Option.isNone_iff_eq_none, Option.isSome_iff_ne_none] using hsome
    have hcard := Finset.card_le_card htaken
    rw [Finset.card_image_of_injective _ fun a b h => (QuarantineId.mk.inj h).2,
      Finset.card_range] at hcard
    omega

theorem has_setAside (c : LocalCas) (d d' : Digest) (bytes : Bytes) :
    (c.setAside d bytes).has d' = (decide (d' ≠ d) && c.has d') := c.has_reclaim d d'

/-- A quarantine either moves the live copy, whatever its bytes, or changes nothing. -/
theorem quarantine_eq (c : LocalCas) (d : Digest) (stat : Option String) :
    (c.kind = .disk ∧ ∃ bytes, c.blobs.lookup d = some bytes ∧
      (stat = none ∧ c.quarantine d stat =
          (.ok (some ⟨⟨d, c.freeSlot d⟩, d, bytes.length⟩), c.setAside d bytes) ∨
        ∃ e, stat = some e ∧ c.quarantine d stat =
          (.error (ioErr "stat quarantined blob" e), c.setAside d bytes))) ∨
    c.quarantine d stat = (.ok none, c) := by
  unfold quarantine
  split
  · next hk hb =>
    refine .inl ⟨hk, _, hb, ?_⟩
    cases stat with
    | none => exact .inl ⟨rfl, rfl⟩
    | some e => exact .inr ⟨e, rfl, rfl⟩
  · exact .inr rfl

theorem IterLocal.mem_iff {c : LocalCas} {l : List LocalBlob} (h : c.IterLocal l) (b : LocalBlob) :
    b ∈ l ↔ c.size b.digest = some b.sizeBytes := by
  refine ⟨h.2.1 b, fun hb => ?_⟩
  obtain ⟨bytes, hbytes, -⟩ := Option.map_eq_some_iff.mp hb
  have hkey := Finmap.mem_keys.mpr (Finmap.mem_of_lookup_eq_some hbytes)
  obtain ⟨b', hb', hd⟩ := List.mem_map.mp (h.2.2 _ hkey)
  have hsize := h.2.1 b' hb'
  rw [hd, hb] at hsize
  cases b
  cases b'
  simp_all

theorem IterQuarantine.mem_iff {c : LocalCas} {l : List QuarantinedBlob} (h : c.IterQuarantine l)
    (q : QuarantinedBlob) : q ∈ l ↔ q.digest = q.id.digest ∧
      (c.quarantined.lookup q.id).map List.length = some q.sizeBytes := by
  refine ⟨h.2.1 q, fun ⟨hq, hlen⟩ => ?_⟩
  obtain ⟨bytes, hbytes, -⟩ := Option.map_eq_some_iff.mp hlen
  have hkey := Finmap.mem_keys.mpr (Finmap.mem_of_lookup_eq_some hbytes)
  obtain ⟨q', hq', hid⟩ := List.mem_map.mp (h.2.2 _ hkey)
  obtain ⟨hd', hlen'⟩ := h.2.1 q' hq'
  rw [hid, hlen] at hlen'
  cases q
  cases q'
  simp_all

end LocalCas

end NessieStore
