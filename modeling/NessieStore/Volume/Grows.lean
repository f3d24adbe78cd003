import NessieStore.Volume.Consistent

/-!
# Without deletions nothing is lost

Every operation but the two deletions keeps the volumes, by name, and the names of their snapshots
(`MemBackend.Grows`). Beside it stands what replication rests on: a stream that is sent from a
volume without line breaks in its name is accepted where its base is, and leaves its snapshot there
(`receiveStream_accepts`).
-/

set_option autoImplicit false

namespace NessieStore

open Lib

/-- The snapshot uuid that an operation draws is not in use. -/
def MemBackend.FreshSnapshot (b : MemBackend) (fresh : SnapshotUuid) : Prop :=
  ∀ vol ∈ b.snapshots.keys, (b.snapshots.lookup vol).all (fun snaps => decide (fresh ∉ snaps)) = true

instance (b : MemBackend) (fresh : SnapshotUuid) : Decidable (b.FreshSnapshot fresh) :=
  inferInstanceAs (Decidable (∀ vol ∈ b.snapshots.keys, _))

theorem MemBackend.FreshSnapshot.notMem {b : MemBackend} {fresh : SnapshotUuid}
    (h : b.FreshSnapshot fresh)
    {vol : VolumeUuid} {snaps : Snapshots} (hsnaps : b.snapshots.lookup vol = some snaps) :
    fresh ∉ snaps := by
  have hall := h vol (Finmap.mem_keys.mpr (Finmap.mem_of_lookup_eq_some hsnaps))
  simpa [hsnaps] using hall

/-- The operation deletes nothing, and draws a snapshot uuid that is not in use. -/
def MemOp.Adds (b : MemBackend) : MemOp → Prop
  | .deleteVolume _ => False
  | .deleteSnapshot .. => False
  | .createSnapshot fresh .. => b.FreshSnapshot fresh
  | .receiveStream _ freshSnap .. => b.FreshSnapshot freshSnap
  | _ => True

instance (b : MemBackend) : (op : MemOp) → Decidable (op.Adds b)
  | .deleteVolume _ => isFalse id
  | .deleteSnapshot .. => isFalse id
  | .createSnapshot fresh .. => inferInstanceAs (Decidable (b.FreshSnapshot fresh))
  | .receiveStream _ freshSnap .. => inferInstanceAs (Decidable (b.FreshSnapshot freshSnap))
  | .createVolume .. | .patchVolume .. | .createClone .. | .sendStream .. => isTrue trivial

theorem Snapshots.hasNamed_add {snaps : Snapshots} {fresh : SnapshotUuid} (hfresh : fresh ∉ snaps)
    {new name : Text} (h : snaps.hasNamed name = true ∨ name = new) :
    (snaps.add fresh new).hasNamed name = true := by
  rw [hasNamed_iff]
  unfold Snapshots.add
  rcases h with h | rfl
  · obtain ⟨id, s, hs, hname⟩ := hasNamed_iff.mp h
    refine ⟨id, s, ?_, hname⟩
    rw [Map.lookup_insert_eq, if_neg, hs]
    rintro rfl
    exact hfresh (Finmap.mem_of_lookup_eq_some hs)
  · exact ⟨fresh, _, Finmap.lookup_insert snaps, rfl⟩

namespace MemBackend

/-- What `b` has, `b'` has. -/
structure Grows (b b' : MemBackend) : Prop where
  volumes : ∀ u v, b.volumes.lookup u = some v → ∃ v', b'.volumes.lookup u = some v' ∧ v'.name = v.name
  snapshots : ∀ u snaps, b.snapshots.lookup u = some snaps → ∃ snaps',
    b'.snapshots.lookup u = some snaps' ∧
      ∀ name, snaps.hasNamed name = true → snaps'.hasNamed name = true

/-- A volume of the first name has a snapshot of the second. -/
def HasSnapshot (b : MemBackend) (volume snapshot : Text) : Prop :=
  ∃ u v snaps, b.volumes.lookup u = some v ∧ v.name = volume ∧ b.snapshots.lookup u = some snaps ∧
    snaps.hasNamed snapshot = true

namespace Grows

variable {b b' : MemBackend}

theorem refl (b : MemBackend) : Grows b b :=
  ⟨fun _ v hv => ⟨v, hv, rfl⟩, fun _ snaps hsnaps => ⟨snaps, hsnaps, fun _ h => h⟩⟩

theorem trans {b'' : MemBackend} (h : Grows b b') (h' : Grows b' b'') : Grows b b'' := by
  refine ⟨fun u v hv => ?_, fun u snaps hsnaps => ?_⟩
  · obtain ⟨v', hv', hname⟩ := h.volumes u v hv
    obtain ⟨v'', hv'', hname'⟩ := h'.volumes u v' hv'
    exact ⟨v'', hv'', hname'.trans hname⟩
  · obtain ⟨snaps', hsnaps', hsub⟩ := h.snapshots u snaps hsnaps
    obtain ⟨snaps'', hsnaps'', hsub'⟩ := h'.snapshots u snaps' hsnaps'
    exact ⟨snaps'', hsnaps'', fun name hn => hsub' name (hsub name hn)⟩

theorem hasSnapshot (h : Grows b b') {volume snapshot : Text} (hs : b.HasSnapshot volume snapshot) :
    b'.HasSnapshot volume snapshot := by
  obtain ⟨u, v, snaps, hv, rfl, hsnaps, hname⟩ := hs
  obtain ⟨v', hv', hname'⟩ := h.volumes u v hv
  obtain ⟨snaps', hsnaps', hsub⟩ := h.snapshots u snaps hsnaps
  exact ⟨u, v', snaps', hv', hname', hsnaps', hsub snapshot hname⟩

theorem addVolume (h : b.Consistent) {vol : Volume} (hfresh : vol.uuid ∉ b.volumes) :
    Grows b (b.addVolume vol) := by
  have hne : ∀ u, u ∈ b.volumes → u ≠ vol.uuid := by
    rintro u hu rfl
    exact hfresh hu
  refine ⟨fun u v hv => ⟨v, ?_, rfl⟩, fun u snaps hsnaps => ⟨snaps, ?_, fun _ hn => hn⟩⟩
  · unfold MemBackend.addVolume
    rw [Map.lookup_insert_eq, if_neg (hne u (Finmap.mem_of_lookup_eq_some hv)), hv]
  · have hu := (h.keys u).mp (Finmap.mem_of_lookup_eq_some hsnaps)
    unfold MemBackend.addVolume
    rw [Map.lookup_insert_eq, if_neg (hne u hu), hsnaps]

theorem addSnapshot {vol : VolumeUuid} {snaps : Snapshots} (hsnaps : b.snapshots.lookup vol = some snaps)
    {fresh : SnapshotUuid} (hfresh : fresh ∉ snaps) (name : Text) :
    Grows b { b with snapshots := b.snapshots.insert vol (snaps.add fresh name) } := by
  refine ⟨fun _ v hv => ⟨v, hv, rfl⟩, fun u old hold => ?_⟩
  by_cases hu : u = vol
  · subst hu
    rw [hsnaps] at hold
    cases hold
    exact ⟨_, Finmap.lookup_insert _, fun _ hn => Snapshots.hasNamed_add hfresh (.inl hn)⟩
  · exact ⟨old, by rw [Map.lookup_insert_eq, if_neg hu, hold], fun _ hn => hn⟩

theorem setVolume {uuid : VolumeUuid} {vol vol' : Volume} (hvol : b.volumes.lookup uuid = some vol)
    (hname : vol'.name = vol.name) : Grows b { b with volumes := b.volumes.insert uuid vol' } := by
  refine ⟨fun u v hv => ?_, fun _ snaps hsnaps => ⟨snaps, hsnaps, fun _ hn => hn⟩⟩
  by_cases hu : u = uuid
  · subst hu
    rw [hvol] at hv
    cases hv
    exact ⟨vol', Finmap.lookup_insert _, hname⟩
  · exact ⟨v, by rw [Map.lookup_insert_eq, if_neg hu, hv], rfl⟩

end Grows

section

variable {b : MemBackend}

theorem createVolume_grows (h : b.Consistent) {fresh : VolumeUuid} (hfresh : fresh ∉ b.volumes)
    (spec : VolumeSpec) : Grows b (b.createVolume fresh spec).2 := by
  unfold createVolume
  split
  · exact .refl b
  · exact .addVolume h hfresh

theorem patchVolume_grows (debug : Text → String) (uuid : VolumeUuid) (patch : VolumePatch) :
    Grows b (b.patchVolume debug uuid patch).2 := by
  unfold patchVolume
  split
  · exact .refl b
  · split
    · exact .refl b
    · split
      · exact .refl b
      · next vol hvol =>
        dsimp only
        exact .setVolume hvol (by rfl)

theorem createSnapshot_grows {fresh : SnapshotUuid} (hfresh : b.FreshSnapshot fresh) (vol : VolumeUuid)
    (name : Text) : Grows b (b.createSnapshot fresh vol name).2 := by
  unfold createSnapshot
  split
  · exact .refl b
  · next snaps hsnaps =>
    split
    · exact .refl b
    · exact .addSnapshot hsnaps (hfresh.notMem hsnaps) name

theorem createClone_grows (h : b.Consistent) {fresh : VolumeUuid} (hfresh : fresh ∉ b.volumes)
    (parentVol : VolumeUuid) (parentSnap : SnapshotUuid) (newName : Text) :
    Grows b (b.createClone fresh parentVol parentSnap newName).2 := by
  unfold createClone
  split
  · exact .refl b
  · split
    · exact .refl b
    · split
      · exact .refl b
      · split
        · exact .refl b
        · exact .addVolume h hfresh

theorem sendStream_state (debug : Text → String) (vol : VolumeUuid) (snap : Text) (base : Option Text) :
    (b.sendStream debug vol snap base).2 = b := by
  unfold sendStream
  split
  · rfl
  · split
    · rfl
    · split
      · rfl
      · split <;> rfl

theorem destination_grows (h : b.Consistent) (debug : Text → String) {fresh : VolumeUuid}
    (hfresh : fresh ∉ b.volumes) (dest : Text) (parsed : MemReplStream) :
    Grows b (b.destination debug fresh dest parsed).2 := by
  unfold destination
  split
  · exact .refl b
  · split
    · exact .refl b
    · split <;> exact .refl b
  · exact .refl b
  · exact .addVolume h hfresh

/-- A uuid that no snapshot had has none after a volume was made. -/
theorem destination_freshSnapshot {freshSnap : SnapshotUuid} (hsnap : b.FreshSnapshot freshSnap)
    (debug : Text → String) (fresh : VolumeUuid) (dest : Text) (parsed : MemReplStream) :
    (b.destination debug fresh dest parsed).2.FreshSnapshot freshSnap := by
  unfold destination
  split
  · exact hsnap
  · split
    · exact hsnap
    · split <;> exact hsnap
  · exact hsnap
  · intro vol hvol
    simp only [addVolume, newVolume] at hvol ⊢
    rw [Map.lookup_insert_eq]
    split
    · simp [Finmap.notMem_empty]
    · next hne =>
      refine hsnap vol ?_
      rw [Finmap.mem_keys] at hvol ⊢
      exact (Finmap.mem_insert.mp hvol).resolve_left hne

theorem applySnapshot_grows {fresh : SnapshotUuid} (hfresh : b.FreshSnapshot fresh) (vol : VolumeUuid)
    (name : Text) : Grows b (b.applySnapshot fresh vol name).2 := by
  unfold applySnapshot
  split
  · exact .refl b
  · next snaps hsnaps =>
    split
    · exact .refl b
    · exact .addSnapshot hsnaps (hfresh.notMem hsnaps) name

theorem receiveStream_grows (h : b.Consistent) (debug : Text → String) {fresh : VolumeUuid}
    (hfresh : fresh ∉ b.volumes) {freshSnap : SnapshotUuid} (hsnap : b.FreshSnapshot freshSnap)
    (dest : Text) (stream : Except String Bytes) :
    Grows b (b.receiveStream debug fresh freshSnap dest stream).2 := by
  unfold receiveStream
  split
  · exact .refl b
  · split
    · exact .refl b
    · split
      · exact .refl b
      · next parsed _ =>
        have hdest := destination_grows h debug hfresh dest parsed
        have hfree := destination_freshSnapshot hsnap debug fresh dest parsed
        generalize b.destination debug fresh dest parsed = r at hdest hfree
        obtain ⟨out, b'⟩ := r
        cases out with
        | ok vol => exact hdest.trans (applySnapshot_grows hfree vol parsed.snapshot)
        | error e => exact hdest
        | panicked message => exact hdest

theorem exec_grows (h : b.Consistent) (debug : Text → String) {op : MemOp} (hfresh : op.Fresh b)
    (hadds : op.Adds b) : Grows b (b.exec debug op).2 := by
  cases op with
  | createVolume fresh spec => exact createVolume_grows h hfresh spec
  | deleteVolume uuid => exact hadds.elim
  | patchVolume uuid patch => exact patchVolume_grows debug uuid patch
  | createSnapshot fresh vol name => exact createSnapshot_grows hadds vol name
  | deleteSnapshot vol snap => exact hadds.elim
  | createClone fresh parentVol parentSnap newName =>
    exact createClone_grows h hfresh parentVol parentSnap newName
  | sendStream vol snap base =>
    show Grows b (b.sendStream debug vol snap base).2
    rw [sendStream_state]
    exact .refl b
  | receiveStream fresh freshSnap dest stream =>
    exact receiveStream_grows h debug hfresh hadds dest stream

end

/-! ## A stream and where it is accepted -/

section

variable {b : MemBackend} (h : b.Consistent)

include h

theorem hasNamed_of_hasSnapshot {u : VolumeUuid} {v : Volume} {snaps : Snapshots} {snapshot : Text}
    (hv : b.volumes.lookup u = some v) (hsnaps : b.snapshots.lookup u = some snaps)
    (hs : b.HasSnapshot v.name snapshot) : snaps.hasNamed snapshot = true := by
  obtain ⟨u', v', snaps', hv', hname, hsnaps', hn⟩ := hs
  obtain rfl := h.unique u u' v v' hv hv' hname.symm
  rw [hsnaps] at hsnaps'
  cases hsnaps'
  exact hn

/-- A snapshot that exists is sent, from a base that exists. -/
theorem sendStream_ok (debug : Text → String) {u : VolumeUuid} {v : Volume}
    (hv : b.volumes.lookup u = some v) {snap : Text} (hsnap : b.HasSnapshot v.name snap)
    {base : Option Text} (hbase : ∀ name ∈ base, b.HasSnapshot v.name name) :
    (b.sendStream debug u snap base).1 =
      .ok (utf8 (encodeReplStream v.name v.sizeBytes snap base)) := by
  obtain ⟨snaps, hsnaps⟩ := lookup_snapshots h hv
  unfold sendStream
  rw [hv]
  dsimp only
  rw [hsnaps]
  dsimp only
  rw [if_neg (by rw [hasNamed_of_hasSnapshot h hv hsnaps hsnap]; decide)]
  have hnone : (base.filter fun name => !snaps.hasNamed name) = none := by
    cases base with
    | none => rfl
    | some name => simp [hasNamed_of_hasSnapshot h hv hsnaps (hbase name rfl)]
  rw [hnone]

/-- The destination is found or made when the base is there. -/
theorem destination_ok (debug : Text → String) (fresh : VolumeUuid) {dest : Text}
    (parsed : MemReplStream) (hbase : ∀ name ∈ parsed.base, b.HasSnapshot dest name) :
    ∃ vol b' v, b.destination debug fresh dest parsed = (.ok vol, b') ∧
      b'.volumes.lookup vol = some v ∧ v.name = dest := by
  unfold destination
  cases hfound : b.volumeNamed dest with
  | some w =>
    obtain ⟨u, hu, rfl⟩ := volumeNamed_some hfound
    rw [← h.uuid u w hu] at hu
    refine ⟨w.uuid, b, w, ?_, hu, rfl⟩
    cases hb : parsed.base with
    | none => rfl
    | some name =>
      obtain ⟨snaps, hsnaps⟩ := lookup_snapshots h hu
      have hn := hasNamed_of_hasSnapshot h hu hsnaps (hbase name (by rw [hb]; rfl))
      simp only [hsnaps, hn, if_true]
  | none =>
    cases hb : parsed.base with
    | none => exact ⟨fresh, _, _, rfl, Finmap.lookup_insert _, rfl⟩
    | some name =>
      obtain ⟨u, v, -, hv, hname, -⟩ := hbase name (by rw [hb]; rfl)
      exact absurd hname (volumeNamed_none hfound hv)

theorem applySnapshot_ok {fresh : SnapshotUuid} (hfresh : b.FreshSnapshot fresh) {vol : VolumeUuid}
    {v : Volume} (hv : b.volumes.lookup vol = some v) (name : Text) :
    (b.applySnapshot fresh vol name).1 = .ok () ∧
      (b.applySnapshot fresh vol name).2.HasSnapshot v.name name := by
  obtain ⟨snaps, hsnaps⟩ := lookup_snapshots h hv
  unfold applySnapshot
  rw [hsnaps]
  dsimp only
  split
  · next hn => exact ⟨rfl, vol, v, snaps, hv, rfl, hsnaps, hn⟩
  · exact ⟨rfl, vol, v, _, hv, rfl, Finmap.lookup_insert _,
      Snapshots.hasNamed_add (hfresh.notMem hsnaps) (.inr rfl)⟩

/-- A stream is accepted where its base is, and its snapshot is there then. -/
theorem receiveStream_accepts (debug : Text → String) {fresh : VolumeUuid} (hfresh : fresh ∉ b.volumes)
    {freshSnap : SnapshotUuid} (hsnap : b.FreshSnapshot freshSnap) {dest volume snapshot : Text}
    {base : Option Text} (hvolume : '\n' ∉ volume)
    (hsnapshot : '\n' ∉ snapshot ∧ '\r' ∉ snapshot)
    (hline : ∀ name ∈ base, name ≠ [] ∧ '\n' ∉ name ∧ '\r' ∉ name)
    (hbase : ∀ name ∈ base, b.HasSnapshot dest name) (sizeBytes : Option UInt64) :
    let bytes := utf8 (encodeReplStream volume sizeBytes snapshot base)
    (b.receiveStream debug fresh freshSnap dest (.ok bytes)).1 = .ok bytes.length ∧
      (b.receiveStream debug fresh freshSnap dest (.ok bytes)).2.HasSnapshot dest snapshot := by
  intro bytes
  obtain ⟨vol, b', v, hdest, hv, hname⟩ :=
    destination_ok h debug fresh ⟨sizeBytes, snapshot, base⟩ hbase
  have hkept := destination_kept h debug hfresh dest ⟨sizeBytes, snapshot, base⟩
  have hfree := destination_freshSnapshot hsnap debug fresh dest ⟨sizeBytes, snapshot, base⟩
  rw [hdest] at hkept hfree
  obtain ⟨hdone, hthere⟩ := applySnapshot_ok hkept.consistent hfree hv snapshot
  simp only [receiveStream, bytes, ofUtf8_utf8,
    decodeReplStream_encodeReplStream hvolume hsnapshot hline, hdest, hdone]
  exact ⟨rfl, hname ▸ hthere⟩

end

end MemBackend

end NessieStore
