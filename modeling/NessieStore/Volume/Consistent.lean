import NessieStore.Lib.Run
import NessieStore.Volume.MemBackend

/-!
# The in-memory backend stays consistent

Three collections describe the same volumes. What ties them together is one invariant
(`MemBackend.Consistent`), and each operation keeps it, returns, and changes nothing when it fails
(`Kept`): an untrusted stream is decoded before anything is written, and the volume that it may make
on the way is a volume like any other.
-/

set_option autoImplicit false

namespace NessieStore

open Lib

/-! ## The snapshots of one volume -/

namespace Snapshots

variable {snaps : Snapshots} {name : Text}

theorem hasNamed_iff :
    snaps.hasNamed name = true ↔ ∃ id s, snaps.lookup id = some s ∧ s.name = name := by
  simp only [hasNamed, decide_eq_true_eq, Option.any_eq_true]
  constructor
  · rintro ⟨id, -, s, hs, hname⟩
    exact ⟨id, s, hs, hname⟩
  · rintro ⟨id, s, hs, hname⟩
    exact ⟨id, Finmap.mem_keys.mpr (Finmap.mem_of_lookup_eq_some hs), s, hs, hname⟩

/-- No two snapshots share a name. -/
def UniqueNames (snaps : Snapshots) : Prop :=
  ∀ i j s t, snaps.lookup i = some s → snaps.lookup j = some t → s.name = t.name → i = j

theorem UniqueNames.empty : UniqueNames ∅ := by
  intro i j s t hs
  simp at hs

theorem UniqueNames.add (h : snaps.UniqueNames) (hnew : snaps.hasNamed name = false)
    (uuid : SnapshotUuid) : (snaps.add uuid name).UniqueNames := by
  have hother : ∀ id s, snaps.lookup id = some s → s.name ≠ name := by
    intro id s hs hname
    rw [hasNamed_iff.mpr ⟨id, s, hs, hname⟩] at hnew
    cases hnew
  intro i j s t hi hj hname
  unfold Snapshots.add at hi hj
  rw [Map.lookup_insert_eq] at hi hj
  split at hi <;> split at hj
  · next hi' hj' => rw [hi', hj']
  · cases hi
    exact absurd hname.symm (hother j t hj)
  · cases hj
    exact absurd hname (hother i s hi)
  · exact h i j s t hi hj hname

theorem UniqueNames.erase (h : snaps.UniqueNames) (uuid : SnapshotUuid) :
    UniqueNames (Finmap.erase uuid snaps) := by
  intro i j s t hi hj hname
  rw [Map.lookup_erase_eq] at hi hj
  split at hi
  · cases hi
  · split at hj
    · cases hj
    · exact h i j s t hi hj hname

end Snapshots

/-! ## The invariant -/

namespace MemBackend

theorem volumeNamed_some {b : MemBackend} {name : Text} {v : Volume} (h : b.volumeNamed name = some v) :
    ∃ u, b.volumes.lookup u = some v ∧ v.name = name := by
  unfold volumeNamed at h
  dsimp only at h
  split at h
  · cases h
  · next id hmin =>
    obtain ⟨u, hu, rfl⟩ := Finset.mem_image.mp (Finset.mem_of_min hmin)
    obtain ⟨v', hv', hname⟩ := (Option.any_eq_true _ _).mp (Finset.mem_filter.mp hu).2
    rw [hv'] at h
    cases h
    exact ⟨u, hv', of_decide_eq_true hname⟩

theorem volumeNamed_none {b : MemBackend} {name : Text} (h : b.volumeNamed name = none) {u : VolumeUuid}
    {v : Volume} (hv : b.volumes.lookup u = some v) : v.name ≠ name := by
  intro hname
  have hmem : u ∈ b.volumes.keys.filter fun u => (b.volumes.lookup u).any (·.name = name) :=
    Finset.mem_filter.mpr ⟨Finmap.mem_keys.mpr (Finmap.mem_of_lookup_eq_some hv), by simp [hv, hname]⟩
  obtain ⟨id, hmin⟩ := Finset.min_of_mem (Finset.mem_image_of_mem VolumeUuid.id hmem)
  obtain ⟨u', hu', hid⟩ := Finset.mem_image.mp (Finset.mem_of_min hmin)
  obtain ⟨v', hv', -⟩ := (Option.any_eq_true _ _).mp (Finset.mem_filter.mp hu').2
  unfold volumeNamed at h
  dsimp only at h
  subst hid
  rw [hmin] at h
  dsimp only at h
  rw [hv'] at h
  cases h

/-- The three collections agree. -/
structure Consistent (b : MemBackend) : Prop where
  names : ∀ name, name ∈ b.names ↔ ∃ u v, b.volumes.lookup u = some v ∧ v.name = name
  unique : ∀ u u' v v', b.volumes.lookup u = some v → b.volumes.lookup u' = some v' →
    v.name = v'.name → u = u'
  keys : ∀ u, u ∈ b.snapshots ↔ u ∈ b.volumes
  snapshots : ∀ u snaps, b.snapshots.lookup u = some snaps → Snapshots.UniqueNames snaps
  uuid : ∀ u v, b.volumes.lookup u = some v → v.uuid = u

theorem Consistent.new : Consistent new where
  names name := by simp [MemBackend.new]
  unique u u' v v' h := by simp [MemBackend.new] at h
  keys u := ⟨fun hu => absurd hu Finmap.notMem_empty, fun hu => absurd hu Finmap.notMem_empty⟩
  snapshots u snaps h := by simp [MemBackend.new] at h
  uuid u v h := by simp [MemBackend.new] at h

section

variable {b : MemBackend} (h : b.Consistent)

include h

theorem Consistent.addVolume {vol : Volume} (hfresh : vol.uuid ∉ b.volumes) (hname : vol.name ∉ b.names) :
    (b.addVolume vol).Consistent := by
  have hother : ∀ u v, b.volumes.lookup u = some v → v.name ≠ vol.name := fun u v hv heq =>
    hname ((h.names _).mpr ⟨u, v, hv, heq⟩)
  constructor
  · intro name
    simp only [MemBackend.addVolume, Finset.mem_insert, Map.lookup_insert_eq, h.names]
    constructor
    · rintro (rfl | ⟨u, v, hv, rfl⟩)
      · exact ⟨vol.uuid, vol, if_pos rfl, rfl⟩
      · have hne : u ≠ vol.uuid := fun heq => hfresh (heq ▸ Finmap.mem_of_lookup_eq_some hv)
        exact ⟨u, v, by rw [if_neg hne, hv], rfl⟩
    · rintro ⟨u, v, hv, rfl⟩
      split at hv
      · cases hv
        exact .inl rfl
      · exact .inr ⟨u, v, hv, rfl⟩
  · intro u u' v v' hv hv' heq
    simp only [MemBackend.addVolume, Map.lookup_insert_eq] at hv hv'
    split at hv <;> split at hv'
    · next hu hu' => rw [hu, hu']
    · cases hv
      exact absurd heq.symm (hother u' v' hv')
    · cases hv'
      exact absurd heq (hother u v hv)
    · exact h.unique u u' v v' hv hv' heq
  · intro u
    simp only [MemBackend.addVolume, Finmap.mem_insert, h.keys]
  · intro u snaps hsnaps
    simp only [MemBackend.addVolume, Map.lookup_insert_eq] at hsnaps
    split at hsnaps
    · cases hsnaps
      exact .empty
    · exact h.snapshots u snaps hsnaps
  · intro u v hv
    simp only [MemBackend.addVolume, Map.lookup_insert_eq] at hv
    split at hv
    · next hu =>
      cases hv
      exact hu.symm
    · exact h.uuid u v hv

theorem Consistent.removeVolume {uuid : VolumeUuid} {vol : Volume}
    (hvol : b.volumes.lookup uuid = some vol) :
    Consistent ⟨b.volumes.erase uuid, b.snapshots.erase uuid, b.names.erase vol.name⟩ := by
  constructor
  · intro name
    simp only [Finset.mem_erase, Map.lookup_erase_eq, h.names]
    constructor
    · rintro ⟨hne, u, v, hv, rfl⟩
      have hu : u ≠ uuid := by
        rintro rfl
        rw [hvol] at hv
        cases hv
        exact hne rfl
      exact ⟨u, v, by rw [if_neg hu, hv], rfl⟩
    · rintro ⟨u, v, hv, rfl⟩
      split at hv
      · cases hv
      · next hu => exact ⟨fun heq => hu (h.unique u uuid v vol hv hvol heq), u, v, hv, rfl⟩
  · intro u u' v v' hv hv' heq
    simp only [Map.lookup_erase_eq] at hv hv'
    split at hv
    · cases hv
    · split at hv'
      · cases hv'
      · exact h.unique u u' v v' hv hv' heq
  · intro u
    simp only [Finmap.mem_erase, h.keys]
  · intro u snaps hsnaps
    rw [Map.lookup_erase_eq] at hsnaps
    split at hsnaps
    · cases hsnaps
    · exact h.snapshots u snaps hsnaps
  · intro u v hv
    rw [Map.lookup_erase_eq] at hv
    split at hv
    · cases hv
    · exact h.uuid u v hv

/-- A volume that keeps its uuid and its name may change in everything else. -/
theorem Consistent.setVolume {uuid : VolumeUuid} {vol vol' : Volume}
    (hvol : b.volumes.lookup uuid = some vol) (huuid : vol'.uuid = vol.uuid)
    (hname : vol'.name = vol.name) : Consistent { b with volumes := b.volumes.insert uuid vol' } := by
  -- what is listed under a uuid now was listed there before with the same name and uuid
  have hback : ∀ u v, (b.volumes.insert uuid vol').lookup u = some v →
      ∃ v₀, b.volumes.lookup u = some v₀ ∧ v₀.name = v.name ∧ v₀.uuid = v.uuid := by
    intro u v hv
    rw [Map.lookup_insert_eq] at hv
    split at hv
    · next hu =>
      cases hv
      exact ⟨vol, hu ▸ hvol, hname.symm, huuid.symm⟩
    · exact ⟨v, hv, rfl, rfl⟩
  constructor
  · intro name
    rw [h.names]
    constructor
    · rintro ⟨u, v, hv, rfl⟩
      by_cases hu : u = uuid
      · subst hu
        rw [hvol] at hv
        cases hv
        exact ⟨u, vol', by rw [Map.lookup_insert_eq, if_pos rfl], hname⟩
      · exact ⟨u, v, by rw [Map.lookup_insert_eq, if_neg hu, hv], rfl⟩
    · rintro ⟨u, v, hv, rfl⟩
      obtain ⟨v₀, hv₀, hsame, -⟩ := hback u v hv
      exact ⟨u, v₀, hv₀, hsame⟩
  · intro u u' v v' hv hv' heq
    obtain ⟨w, hw, hwname, -⟩ := hback u v hv
    obtain ⟨w', hw', hwname', -⟩ := hback u' v' hv'
    exact h.unique u u' w w' hw hw' (by rw [hwname, hwname', heq])
  · intro u
    rw [h.keys, Finmap.mem_insert]
    exact ⟨.inr, fun hu => hu.elim (fun heq => heq ▸ Finmap.mem_of_lookup_eq_some hvol) id⟩
  · exact h.snapshots
  · intro u v hv
    obtain ⟨v₀, hv₀, -, huuid₀⟩ := hback u v hv
    exact huuid₀ ▸ h.uuid u v₀ hv₀

theorem Consistent.setSnapshots {vol : VolumeUuid} {snaps snaps' : Snapshots}
    (hsnaps : b.snapshots.lookup vol = some snaps) (hunique : snaps'.UniqueNames) :
    Consistent { b with snapshots := b.snapshots.insert vol snaps' } := by
  refine ⟨h.names, h.unique, ?_, ?_, h.uuid⟩
  · intro u
    rw [← h.keys, Finmap.mem_insert]
    exact ⟨fun hu => hu.elim (fun heq => heq ▸ Finmap.mem_of_lookup_eq_some hsnaps) id, .inr⟩
  · intro u s hs
    rw [Map.lookup_insert_eq] at hs
    split at hs
    · cases hs
      exact hunique
    · exact h.snapshots u s hs

end

/-! ## Every operation keeps it -/

/-- An operation's result: it returns, the collections agree after it, and a failure changed
nothing. -/
structure Kept {α : Type} (b : MemBackend) (r : Outcome α × MemBackend) : Prop where
  consistent : r.2.Consistent
  returns : ∀ message, r.1 ≠ .panicked message
  unchanged : ∀ e, r.1 = .error e → r.2 = b

namespace Kept

variable {α β : Type} {b : MemBackend}

theorem ok {b' : MemBackend} (h : b'.Consistent) (value : α) : Kept b (.ok value, b') where
  consistent := h
  returns _ hr := by cases hr
  unchanged _ he := by cases he

theorem error (h : b.Consistent) (e : BackendError) : Kept (α := α) b (.error e, b) where
  consistent := h
  returns _ hr := by cases hr
  unchanged _ _ := rfl

theorem map {r : Outcome α × MemBackend} (h : Kept b r) (f : α → β) :
    Kept b (r.map (.map f) id) := by
  obtain ⟨out, b'⟩ := r
  cases out with
  | ok value => exact ok h.consistent (f value)
  | error e =>
    cases h.unchanged e rfl
    exact error h.consistent e
  | panicked message => exact absurd rfl (h.returns message)

end Kept

section

variable {b : MemBackend} (h : b.Consistent)

include h

theorem lookup_snapshots {uuid : VolumeUuid} {vol : Volume} (hvol : b.volumes.lookup uuid = some vol) :
    ∃ snaps, b.snapshots.lookup uuid = some snaps :=
  Option.isSome_iff_exists.mp
    (Finmap.lookup_isSome.mpr ((h.keys uuid).mpr (Finmap.mem_of_lookup_eq_some hvol)))

theorem createVolume_kept {fresh : VolumeUuid} (hfresh : fresh ∉ b.volumes) (spec : VolumeSpec) :
    Kept b (b.createVolume fresh spec) := by
  unfold createVolume
  split
  · exact .error h _
  · next hname => exact .ok (h.addVolume hfresh hname) _

theorem deleteVolume_kept (uuid : VolumeUuid) : Kept b (b.deleteVolume uuid) := by
  unfold deleteVolume
  split
  · exact .error h _
  · next vol hvol => exact .ok (h.removeVolume hvol) _

theorem patchVolume_kept (debug : Text → String) (uuid : VolumeUuid) (patch : VolumePatch) :
    Kept b (b.patchVolume debug uuid patch) := by
  unfold patchVolume
  split
  · exact .error h _
  · next hmem =>
    split
    · exact .error h _
    · split
      · next hnone => exact absurd (Finmap.lookup_eq_none.mp hnone) hmem
      · next vol hvol =>
        dsimp only
        exact .ok (h.setVolume hvol (by rfl) (by rfl)) _

theorem createSnapshot_kept (fresh : SnapshotUuid) (vol : VolumeUuid) (name : Text) :
    Kept b (b.createSnapshot fresh vol name) := by
  unfold createSnapshot
  split
  · exact .error h _
  · next snaps hsnaps =>
    split
    · exact .error h _
    · next hnew =>
      exact .ok (h.setSnapshots hsnaps ((h.snapshots vol snaps hsnaps).add
        (Bool.eq_false_iff.mpr hnew) fresh)) _

theorem deleteSnapshot_kept (vol : VolumeUuid) (snap : SnapshotUuid) :
    Kept b (b.deleteSnapshot vol snap) := by
  unfold deleteSnapshot
  split
  · exact .error h _
  · next snaps hsnaps =>
    split
    · exact .error h _
    · exact .ok (h.setSnapshots hsnaps ((h.snapshots vol snaps hsnaps).erase snap)) _

theorem createClone_kept {fresh : VolumeUuid} (hfresh : fresh ∉ b.volumes) (parentVol : VolumeUuid)
    (parentSnap : SnapshotUuid) (newName : Text) :
    Kept b (b.createClone fresh parentVol parentSnap newName) := by
  unfold createClone
  split
  · exact .error h _
  · split
    · exact .error h _
    · split
      · exact .error h _
      · split
        · exact .error h _
        · next hname => exact .ok (h.addVolume hfresh hname) _

theorem sendStream_kept (debug : Text → String) (vol : VolumeUuid) (snap : Text) (base : Option Text) :
    Kept b (b.sendStream debug vol snap base) := by
  unfold sendStream
  split
  · exact .error h _
  · split
    · exact .error h _
    · split
      · exact .error h _
      · split
        · exact .error h _
        · exact .ok h _

theorem destination_kept (debug : Text → String) {fresh : VolumeUuid} (hfresh : fresh ∉ b.volumes)
    (dest : Text) (parsed : MemReplStream) : Kept b (b.destination debug fresh dest parsed) := by
  unfold destination
  split
  · exact .ok h _
  · next vol base hvol hbase =>
    obtain ⟨u, hu, -⟩ := volumeNamed_some hvol
    obtain ⟨snaps, hsnaps⟩ := lookup_snapshots h hu
    rw [h.uuid u vol hu, hsnaps]
    dsimp only
    split
    · exact .ok h _
    · exact .error h _
  · exact .error h _
  · next hnone _ =>
    refine .ok (h.addVolume hfresh fun hname => ?_) _
    obtain ⟨u, v, hv, heq⟩ := (h.names _).mp hname
    exact volumeNamed_none hnone hv heq

/-- A destination that was found or made is a live volume. -/
theorem destination_live {debug : Text → String} {fresh : VolumeUuid} {dest : Text}
    {parsed : MemReplStream} {vol : VolumeUuid} {b' : MemBackend}
    (hdest : b.destination debug fresh dest parsed = (.ok vol, b')) : vol ∈ b'.volumes := by
  have hfound : ∀ {v : Volume}, b.volumeNamed dest = some v → v.uuid ∈ b.volumes := by
    intro v hv
    obtain ⟨u, hu, -⟩ := volumeNamed_some hv
    rw [h.uuid u v hu]
    exact Finmap.mem_of_lookup_eq_some hu
  unfold destination at hdest
  split at hdest
  · next hv _ =>
    cases hdest
    exact hfound hv
  · next hv _ =>
    split at hdest
    · cases hdest
    · split at hdest
      · cases hdest
        exact hfound hv
      · cases hdest
  · cases hdest
  · cases hdest
    exact Finmap.mem_insert.mpr (.inl rfl)

theorem applySnapshot_kept (fresh : SnapshotUuid) {vol : VolumeUuid} (hvol : vol ∈ b.volumes)
    (name : Text) : Kept b (b.applySnapshot fresh vol name) ∧
      ∀ e, (b.applySnapshot fresh vol name).1 ≠ .error e := by
  unfold applySnapshot
  split
  · next hnone => exact absurd ((h.keys vol).mpr hvol) (Finmap.lookup_eq_none.mp hnone)
  · next snaps hsnaps =>
    split
    · exact ⟨.ok h _, by rintro e ⟨⟩⟩
    · next hnew =>
      refine ⟨.ok (h.setSnapshots hsnaps ((h.snapshots vol snaps hsnaps).add
        (Bool.eq_false_iff.mpr hnew) fresh)) _, by rintro e ⟨⟩⟩

theorem receiveStream_kept (debug : Text → String) {fresh : VolumeUuid} (hfresh : fresh ∉ b.volumes)
    (freshSnap : SnapshotUuid) (dest : Text) (stream : Except String Bytes) :
    Kept b (b.receiveStream debug fresh freshSnap dest stream) := by
  unfold receiveStream
  split
  · exact .error h _
  · split
    · exact .error h _
    · split
      · exact .error h _
      · next bytes _ _ _ parsed _ =>
        have hkept := destination_kept h debug hfresh dest parsed
        split
        · next vol b' hdest =>
          rw [hdest] at hkept
          have hlive := destination_live h hdest
          obtain ⟨happlied, hok⟩ :=
            applySnapshot_kept hkept.consistent freshSnap hlive parsed.snapshot
          -- the volume made on the way stays: applying the snapshot cannot fail any more
          dsimp only
          generalize b'.applySnapshot freshSnap vol parsed.snapshot = r at happlied hok ⊢
          obtain ⟨out, b''⟩ := r
          cases out with
          | ok _ => exact .ok happlied.consistent _
          | error e => exact absurd rfl (hok e)
          | panicked message => exact absurd rfl (happlied.returns message)
        · next e b' hdest =>
          rw [hdest] at hkept
          cases hkept.unchanged e rfl
          exact .error h _
        · next message b' hdest =>
          rw [hdest] at hkept
          exact absurd rfl (hkept.returns message)

/-- The step lemma. -/
theorem exec_kept (debug : Text → String) {op : MemOp} (hfresh : op.Fresh b) :
    Kept b (b.exec debug op) := by
  cases op with
  | createVolume fresh spec => exact (createVolume_kept h hfresh spec).map _
  | deleteVolume uuid => exact (deleteVolume_kept h uuid).map _
  | patchVolume uuid patch => exact (patchVolume_kept h debug uuid patch).map _
  | createSnapshot fresh vol name => exact (createSnapshot_kept h fresh vol name).map _
  | deleteSnapshot vol snap => exact (deleteSnapshot_kept h vol snap).map _
  | createClone fresh parentVol parentSnap newName =>
    exact (createClone_kept h hfresh parentVol parentSnap newName).map _
  | sendStream vol snap base => exact (sendStream_kept h debug vol snap base).map _
  | receiveStream fresh freshSnap dest stream =>
    exact (receiveStream_kept h debug hfresh freshSnap dest stream).map _

end

end MemBackend

/-- A system of one backend: every operation is always enabled. -/
def memStep (debug : Text → String) (b : MemBackend) (op : MemOp) : Option MemBackend :=
  some (b.exec debug op).2

/-- From an empty backend, after any sequence of operations that draw fresh uuids: the names in use
are the names of the live volumes, which differ; the live volumes are the keys of the snapshot map;
the snapshots of a volume differ in their names. And whatever is called next returns, with nothing
changed if it fails. -/
theorem mem_backend_consistent {debug : Text → String} {ops : List MemOp} {b : MemBackend}
    (hrun : Run (memStep debug) MemOp.Fresh MemBackend.new ops b) :
    (∀ name, name ∈ b.names ↔ ∃ u v, b.volumes.lookup u = some v ∧ v.name = name) ∧
      (∀ u u' v v', b.volumes.lookup u = some v → b.volumes.lookup u' = some v' →
        v.name = v'.name → u = u') ∧
      b.snapshots.keys = b.volumes.keys ∧
      (∀ u snaps, b.snapshots.lookup u = some snaps → ∀ i j s t, snaps.lookup i = some s →
        snaps.lookup j = some t → s.name = t.name → i = j) ∧
      ∀ op, MemOp.Fresh b op →
        (∀ message, (b.exec debug op).1 ≠ .panicked message) ∧
          ∀ e, (b.exec debug op).1 = .error e → (b.exec debug op).2 = b := by
  have hcons : b.Consistent := by
    refine hrun.keeps (fun hfresh hs hstep => ?_) .new
    cases hstep
    exact (MemBackend.exec_kept hs debug hfresh).consistent
  refine ⟨hcons.names, hcons.unique, ?_, hcons.snapshots, fun op hfresh => ?_⟩
  · ext u
    rw [Finmap.mem_keys, Finmap.mem_keys, hcons.keys]
  · have hkept := MemBackend.exec_kept hcons debug hfresh
    exact ⟨hkept.returns, hkept.unchanged⟩

/-- A volume, a snapshot of it, a clone, and the descriptor received as a second volume. -/
def fourOps : List MemOp :=
  [.createVolume ⟨0⟩ ⟨"a".toList, none⟩, .createSnapshot ⟨0⟩ ⟨0⟩ "s".toList,
    .createClone ⟨1⟩ ⟨0⟩ ⟨0⟩ "b".toList,
    .receiveStream ⟨2⟩ ⟨1⟩ "c".toList
      (.ok (utf8 (encodeReplStream "a".toList (some 7) "s".toList none)))]

theorem mem_backend_consistent_four : ∃ b, run (memStep String.ofList) MemOp.Fresh MemBackend.new fourOps =
    some b ∧ b.names = {"a".toList, "b".toList, "c".toList} ∧
    ∀ name, name ∈ b.names ↔ ∃ u v, b.volumes.lookup u = some v ∧ v.name = name := by
  obtain ⟨b, hrun, hnames⟩ : ∃ b, run (memStep String.ofList) MemOp.Fresh MemBackend.new fourOps =
      some b ∧ b.names = {"a".toList, "b".toList, "c".toList} := run_exists (by decide +kernel)
  exact ⟨b, hrun, hnames, (mem_backend_consistent (run_sound hrun)).1⟩

end NessieStore
