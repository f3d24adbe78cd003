import NessieStore.Lib.Run
import NessieStore.Volume.ZfsLaws

/-!
# What a failed call of the ZFS backend leaves behind

`create_volume` and `create_clone` run one command and register what it made, so a failure changes
nothing. `delete_volume` removes the export file before it asks the pool to destroy the dataset,
which may be refused: because of a clone, or because the mount stays busy. `patch_volume` sets the
quota, then the mountpoint, then writes the export file, and reads the volume back at the end; each
of these may be the last that succeeds.

`Sheltered` is the condition under which a call of the four fails without a trace, in terms of the
world before it and of the faults of its commands. It is exact (`failed_call_keeps_iff`). A failure
that is sheltered leaves the whole pool and all files as they were, not only those of the volume
(`sheltered_changes_nothing`).
-/

set_option autoImplicit false

namespace NessieStore

open Lib

namespace ZfsBackend

variable {debug : Text → String} {cfg : ZfsSettings} {env : ZfsEnv} {w w' : ZfsWorld} {u : VolumeUuid}

/-! ## Where the calls fail -/

theorem fails_createVolume {spec : VolumeSpec} (h : Fails (createVolume cfg env spec) w w') :
    w' = w := by
  rcases fails_bind_iff.mp h with h | ⟨out, t, -, h⟩
  · exact (fails_runChecked_iff.mp h).1
  · obtain ⟨e, he⟩ := h
    cases he

theorem fails_createClone {snap : SnapshotUuid} {name : Text}
    (h : Fails (createClone cfg env u snap name) w w') : w' = w := by
  rcases fails_bind_iff.mp h with hfails | ⟨parent, t, hparent, hnamed⟩
  · exact (fails_volName_iff.mp hfails).1
  obtain ⟨rfl, -⟩ := volName_eq_ok hparent
  rcases fails_bind_iff.mp hnamed with hfails | ⟨snapshot, t, hsnap, hfound⟩
  · exact fails_snapName hfails
  obtain ⟨rfl, -⟩ := snapName_eq_ok hsnap
  rcases fails_bind_iff.mp hfound with hfails | ⟨out, t, -, hmade⟩
  · exact (fails_runChecked_iff.mp hfails).1
  · obtain ⟨e, he⟩ := hmade
    cases he

/-- A deletion fails behind the removal of the export file. -/
theorem fails_deleteVolume_iff {name : Text} (hreg : w.reg.volByUuid.lookup u = some name) :
    Fails (deleteVolume cfg env u) w w' ↔
      w' = w.lose (exportLost cfg env w name) ∧ ¬ Destroys env w.pool name cfg.maxDestroyRetries 0 := by
  rw [deleteVolume, fails_bind_of_ok (volName_of_lookup hreg), fails_bind_of_ok (nfsUnexport_eq name)]
  have hpool : (w.lose (exportLost cfg env w name)).pool = w.pool := ZfsWorld.lose_pool _
  refine fails_iff_of (fun hdestroys => ?_) fun hnot => ?_
  · rw [← hpool] at hdestroys
    rw [bind_of_ok (destroyWithRetry_of_destroys hdestroys)]
    exact ⟨(), _, rfl⟩
  · rw [← hpool] at hnot
    exact (fails_bind_of_fails (fails_destroyWithRetry_iff.mpr ⟨rfl, hnot⟩)).mpr rfl

/-- A deletion leaves its export file removed, and with it the dataset and the uuid or neither. -/
theorem deleteVolume_final {name : Text} (hreg : w.reg.volByUuid.lookup u = some name) :
    final (deleteVolume cfg env u) w = w.lose (exportLost cfg env w name) ∨
      final (deleteVolume cfg env u) w =
        { w.lose (exportLost cfg env w name) with
          pool := w.pool.without name, reg := w.reg.removeVol u } := by
  by_cases hdestroys : Destroys env w.pool name cfg.maxDestroyRetries 0
  · refine .inr (final_of_ok (a := ()) ?_)
    rw [← ZfsWorld.lose_pool (exportLost cfg env w name)] at hdestroys
    rw [deleteVolume, bind_of_ok (volName_of_lookup hreg), bind_of_ok (nfsUnexport_eq name),
      bind_of_ok (destroyWithRetry_of_destroys hdestroys), ZfsWorld.lose_pool]
    show EStateM.Result.ok () _ = _
    rw [ZfsWorld.lose_reg]
  · exact .inl ((fails_deleteVolume_iff hreg).mpr ⟨rfl, hdestroys⟩).final

theorem deleteVolume_unknown (hreg : w.reg.volByUuid.lookup u = none) :
    Fails (deleteVolume cfg env u) w w :=
  (fails_bind_of_fails (fails_volName_iff.mpr ⟨rfl, by simp [hreg]⟩)).mpr rfl

section Patch

variable {patch : VolumePatch} {name : Text} {n : DatasetName} {d : Dataset}

theorem checkJunction_eq {junction : Option Text} (h : ∀ j ∈ junction, j.head? = some '/') :
    checkJunction debug junction w = .ok () w := by
  cases junction with
  | none => rfl
  | some j =>
    simp only [checkJunction, if_pos (h j rfl)]
    rfl

theorem fails_checkJunction_iff {junction : Option Text} :
    Fails (checkJunction debug junction) w w' ↔ w' = w ∧ ¬ ∀ j ∈ junction, j.head? = some '/' := by
  refine fails_iff_of (fun h => ⟨(), w, checkJunction_eq h⟩) fun hnot => ?_
  cases junction with
  | none => exact absurd (fun j h => by cases h) hnot
  | some j =>
    have hhead : ¬ j.head? = some '/' := by
      intro h
      refine hnot ?_
      rintro _ ⟨⟩
      exact h
    simp only [checkJunction, if_neg hhead]
    exact ⟨_, rfl⟩

/-- A patch fails before anything is set, with the quota set, or with everything set. -/
theorem fails_patchVolume_iff (hreg : w.reg.volByUuid.lookup u = some name)
    (hfind : w.pool.find name = some (n, d))
    (hjunction : ∀ j ∈ patch.junctionPath, j.head? = some '/') :
    Fails (patchVolume debug cfg env u patch) w w' ↔
      ¬ SizeRuns env name patch.sizeBytes ∧ w' = w ∨
      SizeRuns env name patch.sizeBytes ∧ ¬ JunctionRuns cfg env name d patch.junctionPath ∧
        w' = w.put n (resized patch.sizeBytes d) ∨
      SizeRuns env name patch.sizeBytes ∧ JunctionRuns cfg env name d patch.junctionPath ∧
        ¬ env.fault (.listDataset name) 0 = none ∧
        w' = (w.put n (moved cfg patch.junctionPath (resized patch.sizeBytes d))).leave
          (junctionLeft cfg env name patch.junctionPath) := by
  rw [patchVolume, fails_bind_of_ok (volName_of_lookup hreg),
    fails_bind_of_ok (checkJunction_eq hjunction)]
  by_cases hsize : SizeRuns env name patch.sizeBytes
  · rw [fails_bind_of_ok (patchSize_of_runs hfind hsize)]
    have hname := (Zpool.find_eq_some.mp hfind).1
    have hfind' : (w.put n (resized patch.sizeBytes d)).pool.find name = _ := ZfsWorld.find_put hname
    by_cases hmove : JunctionRuns cfg env name d patch.junctionPath
    · have hmove' : JunctionRuns cfg env name (resized patch.sizeBytes d) patch.junctionPath := hmove
      rw [fails_bind_of_ok (patchJunction_of_runs hfind' hmove'), ZfsWorld.put_put]
      rw [fails_getVolume_iff (n := n) (d := moved cfg patch.junctionPath (resized patch.sizeBytes d))
        (by rw [ZfsWorld.leave_pool, ZfsWorld.find_put hname]) (by rwa [ZfsWorld.leave_reg])]
      simp only [hsize, hmove, not_true_eq_false, false_and, true_and, false_or]
      exact and_comm
    · have hmove' : ¬ JunctionRuns cfg env name (resized patch.sizeBytes d) patch.junctionPath := hmove
      rw [fails_bind_of_fails ((fails_patchJunction_iff hfind').mpr ⟨rfl, hmove'⟩)]
      simp [hsize, hmove]
  · rw [fails_bind_of_fails ((fails_patchSize_iff hfind).mpr ⟨rfl, hsize⟩)]
    simp [hsize]

theorem patchVolume_of_runs (hreg : w.reg.volByUuid.lookup u = some name)
    (hfind : w.pool.find name = some (n, d))
    (hjunction : ∀ j ∈ patch.junctionPath, j.head? = some '/')
    (hsize : SizeRuns env name patch.sizeBytes)
    (hmove : JunctionRuns cfg env name d patch.junctionPath)
    (hlist : env.fault (.listDataset name) 0 = none) :
    ∃ v, patchVolume debug cfg env u patch w =
      .ok v ((w.put n (moved cfg patch.junctionPath (resized patch.sizeBytes d))).leave
        (junctionLeft cfg env name patch.junctionPath)) := by
  have hname := (Zpool.find_eq_some.mp hfind).1
  have hmove' : JunctionRuns cfg env name (resized patch.sizeBytes d) patch.junctionPath := hmove
  rw [patchVolume, bind_of_ok (volName_of_lookup hreg), bind_of_ok (checkJunction_eq hjunction),
    bind_of_ok (patchSize_of_runs hfind hsize),
    bind_of_ok (patchJunction_of_runs (ZfsWorld.find_put hname) hmove'), ZfsWorld.put_put]
  refine getVolume_of_runs (n := n) (d := moved cfg patch.junctionPath (resized patch.sizeBytes d))
    ?_ ?_ hlist
  · rw [ZfsWorld.leave_pool, ZfsWorld.find_put hname]
  · rwa [ZfsWorld.leave_reg]

/-- A patch of a volume whose dataset is gone has nothing to set. -/
theorem patchVolume_of_missing (hreg : w.reg.volByUuid.lookup u = some name)
    (hfind : w.pool.find name = none) (hjunction : ∀ j ∈ patch.junctionPath, j.head? = some '/') :
    Fails (patchVolume debug cfg env u patch) w w := by
  rw [patchVolume, fails_bind_of_ok (volName_of_lookup hreg),
    fails_bind_of_ok (checkJunction_eq hjunction)]
  cases patch.sizeBytes with
  | some bytes => exact (fails_bind_of_fails (patchSize_of_missing hfind bytes)).mpr rfl
  | none =>
    rw [fails_bind_of_ok (x := patchSize cfg env name none) (a := ()) (t := w) rfl]
    cases patch.junctionPath with
    | some j => exact (fails_bind_of_fails (patchJunction_of_missing hfind j)).mpr rfl
    | none =>
      rw [fails_bind_of_ok (x := patchJunction cfg env name none) (a := ()) (t := w) rfl]
      exact getVolume_of_missing hfind hreg

theorem patchVolume_of_bad_junction (hreg : w.reg.volByUuid.lookup u = some name)
    (hjunction : ¬ ∀ j ∈ patch.junctionPath, j.head? = some '/') :
    Fails (patchVolume debug cfg env u patch) w w := by
  rw [patchVolume, fails_bind_of_ok (volName_of_lookup hreg)]
  exact (fails_bind_of_fails (fails_checkJunction_iff.mpr ⟨rfl, hjunction⟩)).mpr rfl

theorem patchVolume_unknown (hreg : w.reg.volByUuid.lookup u = none) :
    Fails (patchVolume debug cfg env u patch) w w :=
  (fails_bind_of_fails (fails_volName_iff.mpr ⟨rfl, by simp [hreg]⟩)).mpr rfl

/-- Whatever becomes of a patch, it touches the properties of one dataset and one export file. -/
theorem patchVolume_final (hreg : w.reg.volByUuid.lookup u = some name) :
    final (patchVolume debug cfg env u patch) w = w ∨
      ∃ n d d', w.pool.find name = some (n, d) ∧
        (final (patchVolume debug cfg env u patch) w = w.put n d' ∨
          final (patchVolume debug cfg env u patch) w =
            (w.put n d').leave (junctionLeft cfg env name patch.junctionPath)) := by
  by_cases hjunction : ∀ j ∈ patch.junctionPath, j.head? = some '/'
  · cases hfind : w.pool.find name with
    | none => exact .inl (patchVolume_of_missing hreg hfind hjunction).final
    | some found =>
      obtain ⟨n, d⟩ := found
      have hfails : ∀ {w'}, _ → Fails (patchVolume debug cfg env u patch) w w' :=
        (fails_patchVolume_iff hreg hfind hjunction).mpr
      by_cases hsize : SizeRuns env name patch.sizeBytes
      · refine .inr ⟨n, d, ?_⟩
        by_cases hmove : JunctionRuns cfg env name d patch.junctionPath
        · refine ⟨moved cfg patch.junctionPath (resized patch.sizeBytes d), rfl, .inr ?_⟩
          by_cases hlist : env.fault (.listDataset name) 0 = none
          · obtain ⟨v, hv⟩ := patchVolume_of_runs hreg hfind hjunction hsize hmove hlist
            exact final_of_ok hv
          · exact (hfails (.inr (.inr ⟨hsize, hmove, hlist, rfl⟩))).final
        · exact ⟨resized patch.sizeBytes d, rfl, .inl (hfails (.inr (.inl ⟨hsize, hmove, rfl⟩))).final⟩
      · exact .inl (hfails (.inl ⟨hsize, rfl⟩)).final
  · exact .inl (patchVolume_of_bad_junction hreg hjunction).final

end Patch

/-! ## Failures without a trace -/

/-- A deletion whose export file goes also destroys its dataset. -/
def DeleteSheltered (cfg : ZfsSettings) (env : ZfsEnv) (w : ZfsWorld) (name : Text) : Prop :=
  cfg.manageKernelExports = true → env.unlink = true → ∀ path, cfg.exportsFile name = some path →
    (w.files.lookup path).isSome → Destroys env w.pool name cfg.maxDestroyRetries 0

/-- Behind each change of a patch to the dataset or to the export file, no command fails. -/
structure PatchSheltered (cfg : ZfsSettings) (env : ZfsEnv) (w : ZfsWorld) (name : Text) (d : Dataset)
    (patch : VolumePatch) : Prop where
  quota : ∀ bytes ∈ patch.sizeBytes, bytes ≠ d.quota →
    JunctionRuns cfg env name d patch.junctionPath ∧ env.fault (.listDataset name) 0 = none
  mountpoint : ∀ j ∈ patch.junctionPath, JunctionRuns cfg env name d (some j) → Elsewhere cfg d j →
    d.mountpoint ≠ cfg.srvRoot ++ j → env.fault (.listDataset name) 0 = none
  exportFile : ∀ j ∈ patch.junctionPath, JunctionRuns cfg env name d (some j) →
    cfg.manageKernelExports = true → cfg.nfsClients ≠ [] → env.makeDir = true →
    ∀ path left, cfg.exportsFile name = some path →
      env.write.left (cfg.exportContent (cfg.srvRoot ++ j)) = some left →
      w.files.lookup path ≠ some left → env.fault (.listDataset name) 0 = none

/-- A failure of the call leaves no trace. -/
def Sheltered (cfg : ZfsSettings) (env : ZfsEnv) (w : ZfsWorld) : ZfsCall → Prop
  | .deleteVolume u => ∀ name, w.reg.volByUuid.lookup u = some name → DeleteSheltered cfg env w name
  | .patchVolume u patch => ∀ name n d, w.reg.volByUuid.lookup u = some name →
      w.pool.find name = some (n, d) → (∀ j ∈ patch.junctionPath, j.head? = some '/') →
      SizeRuns env name patch.sizeBytes → PatchSheltered cfg env w name d patch
  | _ => True

/-- The calls that make, change or remove a volume. -/
def OfVolume : ZfsCall → Bool
  | .createVolume _ | .createClone _ _ _ | .deleteVolume _ | .patchVolume _ _ => true
  | _ => false

/-- The name of the volume that such a call is about. -/
def subject (w : ZfsWorld) : ZfsCall → Option Text
  | .createVolume spec => some spec.name
  | .createClone _ _ name => some name
  | .deleteVolume u | .patchVolume u _ => w.reg.volByUuid.lookup u
  | _ => none

/-- Pool, files and registry are the same. -/
structure Unchanged (w w' : ZfsWorld) : Prop where
  pool : w'.pool = w.pool
  files : w'.files = w.files
  reg : w'.reg = w.reg

theorem Unchanged.refl (w : ZfsWorld) : Unchanged w w := ⟨rfl, rfl, rfl⟩

/-- The dataset, the export file and the registry are the same. -/
structure KeepsVolume (cfg : ZfsSettings) (name : Text) (w w' : ZfsWorld) : Prop where
  dataset : w'.pool.find name = w.pool.find name
  exportFile : ∀ path, cfg.exportsFile name = some path → w'.files.lookup path = w.files.lookup path
  reg : w'.reg = w.reg

theorem Unchanged.keepsVolume (h : Unchanged w w') (name : Text) : KeepsVolume cfg name w w' where
  dataset := by rw [h.pool]
  exportFile path _ := by rw [h.files]
  reg := h.reg

theorem DeleteSheltered.unchanged {name : Text} (h : DeleteSheltered cfg env w name)
    (hreg : w.reg.volByUuid.lookup u = some name) (hfails : Fails (deleteVolume cfg env u) w w') :
    Unchanged w w' := by
  obtain ⟨rfl, hnot⟩ := (fails_deleteVolume_iff hreg).mp hfails
  cases hlost : exportLost cfg env w name with
  | none => exact .refl w
  | some path =>
    obtain ⟨⟨hmanage, hunlink⟩, hfile, hthere⟩ := exportLost_eq_some.mp hlost
    exact absurd (h hmanage hunlink path hfile hthere) hnot

section Sheltered

variable {name : Text} {n : DatasetName} {d : Dataset} {patch : VolumePatch}

/-- A quota that differs would be followed by commands that run. -/
theorem PatchSheltered.resized_eq (h : PatchSheltered cfg env w name d patch)
    (hnot : ¬ (JunctionRuns cfg env name d patch.junctionPath ∧
      env.fault (.listDataset name) 0 = none)) : resized patch.sizeBytes d = d := by
  unfold resized
  cases hbytes : patch.sizeBytes with
  | none => rfl
  | some bytes =>
    have hsame : bytes = d.quota := by_contra fun hne => hnot (h.quota bytes hbytes hne)
    rw [hsame]
    rfl

theorem PatchSheltered.moved_eq (h : PatchSheltered cfg env w name d patch)
    (hmove : JunctionRuns cfg env name d patch.junctionPath)
    (hlist : ¬ env.fault (.listDataset name) 0 = none) : moved cfg patch.junctionPath d = d := by
  cases hpath : patch.junctionPath with
  | none => rfl
  | some j =>
    rw [hpath] at hmove
    unfold moved
    dsimp only
    split
    · next hgo =>
      have hsame : d.mountpoint = cfg.srvRoot ++ j :=
        by_contra fun hne => hlist (h.mountpoint j hpath hmove hgo hne)
      rw [← hsame]
    · rfl

/-- The export file that is written has the content that it had. -/
theorem PatchSheltered.leave_unchanged (h : PatchSheltered cfg env w name d patch)
    (hmove : JunctionRuns cfg env name d patch.junctionPath)
    (hlist : ¬ env.fault (.listDataset name) 0 = none) :
    Unchanged w (w.leave (junctionLeft cfg env name patch.junctionPath)) := by
  cases hpath : patch.junctionPath with
  | none => exact .refl w
  | some j =>
    rw [hpath] at hmove
    show Unchanged w (w.leave (exportLeft cfg env name (cfg.srvRoot ++ j)))
    cases hleft : exportLeft cfg env name (cfg.srvRoot ++ j) with
    | none => exact .refl w
    | some written =>
      obtain ⟨path, left⟩ := written
      obtain ⟨⟨hmanage, hclients, hdir⟩, hfile, hcontent⟩ := exportLeft_eq_some.mp hleft
      have hsame : w.files.lookup path = some left := by_contra fun hne =>
        hlist (h.exportFile j hpath hmove hmanage hclients hdir path left hfile hcontent hne)
      exact ⟨rfl, Map.insert_self hsame, rfl⟩

theorem PatchSheltered.unchanged (h : PatchSheltered cfg env w name d patch)
    (hreg : w.reg.volByUuid.lookup u = some name) (hfind : w.pool.find name = some (n, d))
    (hjunction : ∀ j ∈ patch.junctionPath, j.head? = some '/')
    (hfails : Fails (patchVolume debug cfg env u patch) w w') : Unchanged w w' := by
  rcases (fails_patchVolume_iff hreg hfind hjunction).mp hfails with
    ⟨-, rfl⟩ | ⟨-, hmove, rfl⟩ | ⟨-, hmove, hlist, rfl⟩
  · exact .refl _
  · rw [h.resized_eq fun hruns => hmove hruns.1, ZfsWorld.put_self hfind]
    exact .refl w
  · rw [h.resized_eq fun hruns => hlist hruns.2, h.moved_eq hmove hlist, ZfsWorld.put_self hfind]
    exact h.leave_unchanged hmove hlist

end Sheltered

/-- A sheltered failure changes nothing at all. -/
theorem sheltered_changes_nothing {call : ZfsCall} (hcall : OfVolume call = true)
    (h : Sheltered cfg env w call) (hfails : Fails (exec debug cfg env call) w w') :
    Unchanged w w' := by
  cases call with
  | createVolume spec =>
    rw [fails_createVolume (fails_discard_iff.mp hfails)]
    exact .refl w
  | createClone vol snap name =>
    rw [fails_createClone (fails_discard_iff.mp hfails)]
    exact .refl w
  | deleteVolume u =>
    cases hreg : w.reg.volByUuid.lookup u with
    | none =>
      rw [(deleteVolume_unknown hreg).unique hfails]
      exact .refl w
    | some name => exact (h name hreg).unchanged hreg hfails
  | patchVolume u patch =>
    replace hfails := fails_discard_iff.mp hfails
    cases hreg : w.reg.volByUuid.lookup u with
    | none =>
      rw [(patchVolume_unknown hreg).unique hfails]
      exact .refl w
    | some name =>
      by_cases hjunction : ∀ j ∈ patch.junctionPath, j.head? = some '/'
      · cases hfind : w.pool.find name with
        | none =>
          rw [(patchVolume_of_missing hreg hfind hjunction).unique hfails]
          exact .refl w
        | some found =>
          obtain ⟨n, d⟩ := found
          by_cases hsize : SizeRuns env name patch.sizeBytes
          · exact (h name n d hreg hfind hjunction hsize).unchanged hreg hfind hjunction hfails
          · rcases (fails_patchVolume_iff hreg hfind hjunction).mp hfails with ⟨-, rfl⟩ | h | h
            · exact .refl _
            · exact absurd h.1 hsize
            · exact absurd h.1 hsize
      · rw [(patchVolume_of_bad_junction hreg hjunction).unique hfails]
        exact .refl w
  | listVolumes | getVolume | accessHandle | listSnapshots | createSnapshot | getSnapshot
    | deleteSnapshot | receiveStream => cases hcall

theorem DeleteSheltered.of_keeps {name : Text} (hreg : w.reg.volByUuid.lookup u = some name)
    (h : ∀ w', Fails (deleteVolume cfg env u) w w' → KeepsVolume cfg name w w') :
    DeleteSheltered cfg env w name := by
  intro hmanage hunlink path hfile hthere
  by_contra hnot
  have hlost : exportLost cfg env w name = some path :=
    exportLost_eq_some.mpr ⟨⟨hmanage, hunlink⟩, hfile, hthere⟩
  have hkept := (h _ ((fails_deleteVolume_iff hreg).mpr ⟨rfl, hnot⟩)).exportFile path hfile
  rw [hlost] at hkept
  have hgone : (w.lose (some path)).files.lookup path = none := Finmap.lookup_erase path w.files
  rw [← hkept, hgone] at hthere
  cases hthere

theorem PatchSheltered.of_keeps {name : Text} {n : DatasetName} {d : Dataset} {patch : VolumePatch}
    (hreg : w.reg.volByUuid.lookup u = some name) (hfind : w.pool.find name = some (n, d))
    (hjunction : ∀ j ∈ patch.junctionPath, j.head? = some '/')
    (hsize : SizeRuns env name patch.sizeBytes)
    (h : ∀ w', Fails (patchVolume debug cfg env u patch) w w' → KeepsVolume cfg name w w') :
    PatchSheltered cfg env w name d patch := by
  have hname := (Zpool.find_eq_some.mp hfind).1
  have hhalf : ¬ JunctionRuns cfg env name d patch.junctionPath → resized patch.sizeBytes d = d := by
    intro hmove
    have hkept := (h _ ((fails_patchVolume_iff hreg hfind hjunction).mpr
      (.inr (.inl ⟨hsize, hmove, rfl⟩)))).dataset
    rw [ZfsWorld.find_put hname, hfind] at hkept
    exact (Prod.mk.inj (Option.some.inj hkept)).2
  have hwhole : JunctionRuns cfg env name d patch.junctionPath →
      ¬ env.fault (.listDataset name) 0 = none → KeepsVolume cfg name w
        ((w.put n (moved cfg patch.junctionPath (resized patch.sizeBytes d))).leave
          (junctionLeft cfg env name patch.junctionPath)) := fun hmove hlist =>
    h _ ((fails_patchVolume_iff hreg hfind hjunction).mpr (.inr (.inr ⟨hsize, hmove, hlist, rfl⟩)))
  have hdataset : JunctionRuns cfg env name d patch.junctionPath →
      ¬ env.fault (.listDataset name) 0 = none →
      moved cfg patch.junctionPath (resized patch.sizeBytes d) = d := by
    intro hmove hlist
    have hkept := (hwhole hmove hlist).dataset
    rw [ZfsWorld.leave_pool, ZfsWorld.find_put hname, hfind] at hkept
    exact (Prod.mk.inj (Option.some.inj hkept)).2
  constructor
  case quota =>
    intro bytes hbytes hne
    by_contra hnot
    refine hne ?_
    have hbytes : (resized patch.sizeBytes d).quota = bytes := by
      rw [resized, Option.mem_def.mp hbytes]
      rfl
    by_cases hmove : JunctionRuns cfg env name d patch.junctionPath
    · have hsame := hdataset hmove fun hlist => hnot ⟨hmove, hlist⟩
      rw [← hbytes, ← moved_quota cfg patch.junctionPath, hsame]
    · rw [← hbytes, hhalf hmove]
  case mountpoint =>
    intro j hj hmove hgo hne
    by_contra hlist
    rw [← Option.mem_def.mp hj] at hmove
    have hsame := hdataset hmove hlist
    rw [Option.mem_def.mp hj] at hsame
    have hgo' : Elsewhere cfg (resized patch.sizeBytes d) j := hgo
    exact hne (by rw [← moved_mountpoint cfg hgo', hsame])
  case exportFile =>
    intro j hj hmove hmanage hclients hdir path left hfile hcontent hne
    by_contra hlist
    rw [← Option.mem_def.mp hj] at hmove
    have hkept := (hwhole hmove hlist).exportFile path hfile
    have hleft : junctionLeft cfg env name patch.junctionPath = some (path, left) := by
      rw [Option.mem_def.mp hj]
      exact exportLeft_eq_some.mpr ⟨⟨hmanage, hclients, hdir⟩, hfile, hcontent⟩
    rw [hleft] at hkept
    exact hne (hkept.symm.trans (Finmap.lookup_insert _))

/-- A failed call leaves the volume, its export file and the registry alone exactly if it is
sheltered. -/
theorem failed_call_keeps_iff (debug : Text → String) (cfg : ZfsSettings) (env : ZfsEnv) (w : ZfsWorld)
    (call : ZfsCall) (hcall : OfVolume call = true) :
    (∀ w', Fails (exec debug cfg env call) w w' →
      w'.reg = w.reg ∧ ∀ name ∈ subject w call, KeepsVolume cfg name w w') ↔
    Sheltered cfg env w call := by
  constructor
  · intro h
    cases call with
    | deleteVolume u =>
      intro name hreg
      exact .of_keeps hreg fun w' hfails => (h w' hfails).2 name hreg
    | patchVolume u patch =>
      intro name n d hreg hfind hjunction hsize
      have hkeeps : ∀ w', Fails (patchVolume debug cfg env u patch) w w' → KeepsVolume cfg name w w' :=
        fun w' hfails => (h w' (fails_discard_iff.mpr hfails)).2 name hreg
      exact .of_keeps hreg hfind hjunction hsize hkeeps
    | _ => trivial
  · intro h w' hfails
    have hsame := sheltered_changes_nothing hcall h hfails
    exact ⟨hsame.reg, fun name _ => hsame.keepsVolume name⟩

/-! ## A clone in the way, and a command that fails late -/

def sampleSettings : ZfsSettings where
  pool := "tank".toList
  srvRoot := "/srv".toList
  maxDestroyRetries := 5
  dataLif := "10.0.0.1".toList
  nfsClients := ["10.0.0.0/8".toList]
  datasetOwner := none
  datasetMode := none
  exportsDir := "/etc/exports.d".toList
  manageKernelExports := true
  named := by decide

def datasetA : DatasetName := ⟨"a".toList, by decide⟩

def datasetB : DatasetName := ⟨"b".toList, by decide⟩

def snapshotS : SnapshotName := ⟨"s".toList, by decide⟩

/-- Volume `a` with a quota. -/
def oneVolume : List Act :=
  [⟨.createVolume ⟨"a".toList, some 100⟩, .calm [] []⟩]

/-- The volume is exported. -/
def exportedVolume : List Act :=
  oneVolume ++ [⟨.patchVolume ⟨0⟩ ⟨none, some "/a".toList, none⟩, .calm [datasetA] []⟩]

/-- A snapshot of it has a clone. -/
def clonedVolume : List Act :=
  exportedVolume ++
    [⟨.createSnapshot ⟨0⟩ "s".toList, .calm [datasetA] []⟩,
      ⟨.createClone ⟨0⟩ ⟨1⟩ "b".toList, .calm [datasetA] [(datasetA, snapshotS)]⟩]

/-- The mountpoint of `a` cannot be read. -/
def unreadableMountpoint : ZfsEnv :=
  { ZfsEnv.calm [datasetA] [] with
    fault := fun command _ =>
      if command = .getMountpoint "a".toList then some (.exit "I/O error".toList) else none }

def exportA : Text := "/etc/exports.d/trident_a.exports".toList

def emptyPool : Zpool := ⟨∅, ∅⟩

/-- With nothing in the way the export file goes together with the dataset. -/
theorem failed_call_keeps_exported :
    ∃ w, run (step (fun _ => "") sampleSettings) (fun _ _ => True) (.new emptyPool ∅) exportedVolume =
        some w ∧ (w.files.lookup exportA).isSome ∧ OfVolume (.deleteVolume ⟨0⟩) = true ∧
      ∀ w', Fails (exec (fun _ => "") sampleSettings (.calm [datasetA] []) (.deleteVolume ⟨0⟩)) w w' →
        w'.reg = w.reg ∧ ∀ name ∈ subject w (.deleteVolume ⟨0⟩),
          KeepsVolume sampleSettings name w w' := by
  obtain ⟨w, hrun, hfile, hreg, hfind, hfree⟩ : ∃ w, run (step (fun _ => "") sampleSettings)
      (fun _ _ => True) (.new emptyPool ∅) exportedVolume = some w ∧
      (w.files.lookup exportA).isSome ∧ w.reg.volByUuid.lookup ⟨0⟩ = some "a".toList ∧
      (w.pool.find "a".toList).isSome ∧ ¬ w.pool.ClonedOut "a".toList :=
    run_exists (by decide +kernel)
  refine ⟨w, hrun, hfile, rfl, (failed_call_keeps_iff _ _ _ w _ rfl).mpr ?_⟩
  intro name hname _ _ path _ _
  rw [hreg] at hname
  cases hname
  exact ⟨⟨hfind, hfree⟩, 0, Nat.zero_le _, fun j hj => absurd hj (Nat.not_lt_zero j), rfl⟩

theorem failed_call_leaves_traces :
    (∃ w, run (step (fun _ => "") sampleSettings) (fun _ _ => True) (.new emptyPool ∅) clonedVolume =
        some w ∧
      ∃ w', Fails (exec (fun _ => "") sampleSettings
          (.calm [datasetA, datasetB] [(datasetA, snapshotS)]) (.deleteVolume ⟨0⟩)) w w' ∧
        (w.files.lookup exportA).isSome ∧ w'.files.lookup exportA = none ∧
        (w'.pool.find "a".toList).isSome) ∧
    ∃ w, run (step (fun _ => "") sampleSettings) (fun _ _ => True) (.new emptyPool ∅) oneVolume =
        some w ∧
      ∃ w', Fails (exec (fun _ => "") sampleSettings unreadableMountpoint
          (.patchVolume ⟨0⟩ ⟨some 200, some "/a".toList, none⟩)) w w' ∧
        (w.pool.find "a".toList).map (·.2.quota) = some 100 ∧
        (w'.pool.find "a".toList).map (·.2.quota) = some 200 := by
  constructor
  · obtain ⟨w, hrun, hfails⟩ : ∃ w, run (step (fun _ => "") sampleSettings) (fun _ _ => True)
        (.new emptyPool ∅) clonedVolume = some w ∧
        failsWith (exec (fun _ => "") sampleSettings
          (.calm [datasetA, datasetB] [(datasetA, snapshotS)]) (.deleteVolume ⟨0⟩)) w
          (fun w' => (w.files.lookup exportA).isSome ∧ w'.files.lookup exportA = none ∧
            (w'.pool.find "a".toList).isSome) = true := run_exists (by decide +kernel)
    exact ⟨w, hrun, fails_exists hfails⟩
  · obtain ⟨w, hrun, hfails⟩ : ∃ w, run (step (fun _ => "") sampleSettings) (fun _ _ => True)
        (.new emptyPool ∅) oneVolume = some w ∧
        failsWith (exec (fun _ => "") sampleSettings unreadableMountpoint
          (.patchVolume ⟨0⟩ ⟨some 200, some "/a".toList, none⟩)) w
          (fun w' => (w.pool.find "a".toList).map (·.2.quota) = some 100 ∧
            (w'.pool.find "a".toList).map (·.2.quota) = some 200) = true :=
      run_exists (by decide +kernel)
    exact ⟨w, hrun, fails_exists hfails⟩

end ZfsBackend

end NessieStore
