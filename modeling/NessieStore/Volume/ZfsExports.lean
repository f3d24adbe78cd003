import NessieStore.Volume.Identity
import NessieStore.Volume.ZfsAtomic

/-!
# Export files of the ZFS backend

Each volume has one export file, named after the volume's sanitised name: what is not a letter, a
digit, `_`, `-` or `.` is left out, and so are leading dots. The name holds no slash, so every file
that a call writes or removes lies directly in the exports directory. But the sanitiser is not
injective: `a:b`, `a/b` and `ab` are names that ZFS allows, and they share a file.

`ExportsApart` says that no live volume shares its file with another registered one, or that there is
nothing to share: no clients to export to, and no file. It is exact for the sequences of patches and
deletions from a world on (`exports_apart_iff`). It holds of any volumes whose names are their own
sanitised form (`exportsApart_of_plain`).
-/

set_option autoImplicit false

namespace NessieStore

open Lib

/-! ## File names -/

/-- The path names an entry of the directory. -/
def LiesDirectlyIn (dir path : Text) : Prop :=
  ∃ file, path = joinPath dir file ∧ file ≠ [] ∧ file ≠ ".".toList ∧ file ≠ "..".toList ∧ '/' ∉ file

theorem slash_notMem_safeFilenameComponent (name : Text) : '/' ∉ safeFilenameComponent name := by
  intro h
  have hkept := (List.dropWhile_suffix _).subset h
  have hslash := (List.mem_filter.mp hkept).2
  revert hslash
  decide

theorem joinPath_inj {dir file file' : Text} (h : file.head? ≠ some '/') (h' : file'.head? ≠ some '/') :
    joinPath dir file = joinPath dir file' ↔ file = file' := by
  unfold joinPath
  rw [if_neg h, if_neg h']
  split
  · exact List.append_right_inj dir
  · rw [List.append_right_inj, List.cons_inj_right]

namespace ZfsSettings

variable {cfg : ZfsSettings} {name other path : Text}

theorem exportsFileName_head (safe : Text) : (exportsFileName safe).head? = some 't' := rfl

theorem exportsFileName_inj {safe safe' : Text} : exportsFileName safe = exportsFileName safe' ↔
    safe = safe' := by
  unfold exportsFileName
  rw [List.append_left_inj, List.append_right_inj]

theorem exportsFile_eq_some : cfg.exportsFile name = some path ↔
    safeFilenameComponent name ≠ [] ∧
      path = joinPath cfg.exportsDir (exportsFileName (safeFilenameComponent name)) := by
  unfold exportsFile
  dsimp only
  split
  · next h => simp [h]
  · next h =>
    rw [Option.some.injEq]
    exact ⟨fun heq => ⟨h, heq.symm⟩, fun heq => heq.2.symm⟩

/-- Two volumes share their export file exactly if sanitising makes their names the same. -/
theorem exportsFile_shared_iff (h : cfg.exportsFile name = some path) :
    cfg.exportsFile other = some path ↔ safeFilenameComponent other = safeFilenameComponent name := by
  obtain ⟨hne, rfl⟩ := exportsFile_eq_some.mp h
  rw [exportsFile_eq_some, joinPath_inj (by simp [exportsFileName_head])
    (by simp [exportsFileName_head]), exportsFileName_inj]
  constructor
  · exact fun heq => heq.2.symm
  · exact fun heq => ⟨heq ▸ hne, heq.symm⟩

theorem exportsFile_liesDirectlyIn (h : cfg.exportsFile name = some path) :
    LiesDirectlyIn cfg.exportsDir path := by
  obtain ⟨-, rfl⟩ := exportsFile_eq_some.mp h
  have hlong : ∀ short : Text, short.head? ≠ some 't' →
      exportsFileName (safeFilenameComponent name) ≠ short := by
    rintro _ hshort rfl
    exact hshort (exportsFileName_head _)
  refine ⟨_, rfl, hlong _ (by decide), hlong _ (by decide), hlong _ (by decide), ?_⟩
  unfold exportsFileName
  rw [List.mem_append, List.mem_append]
  rintro ((hmem | hmem) | hmem)
  · revert hmem
    decide
  · exact slash_notMem_safeFilenameComponent name hmem
  · revert hmem
    decide

end ZfsSettings

namespace ZfsBackend

variable {debug : Text → String} {cfg : ZfsSettings} {env : ZfsEnv} {w w' w₀ : ZfsWorld}
  {u : VolumeUuid}

/-! ## What a patch or a deletion does to files -/

/-- A deletion, or a patch with a junction. -/
def OnExports : ZfsCall → Bool
  | .deleteVolume _ => true
  | .patchVolume _ patch => patch.junctionPath.isSome
  | _ => false

/-- A registered volume whose dataset is in the pool. -/
def Live (w : ZfsWorld) (name : Text) : Prop :=
  (∃ u, w.reg.volByUuid.lookup u = some name) ∧ (w.pool.find name).isSome

/-- Registrations, datasets and files only go, except for files that are written for clients. -/
structure Shrinks (cfg : ZfsSettings) (w w' : ZfsWorld) : Prop where
  reg : ∀ u name, w'.reg.volByUuid.lookup u = some name → w.reg.volByUuid.lookup u = some name
  pool : ∀ name, (w'.pool.find name).isSome → (w.pool.find name).isSome
  files : cfg.nfsClients = [] → ∀ path, w.files.lookup path = none → w'.files.lookup path = none

/-- The files touched are the volume's own, and one that is not written for clients was there. -/
def TouchesOwn (cfg : ZfsSettings) (w : ZfsWorld) (volume : Option Text) (w' : ZfsWorld) : Prop :=
  ∀ ev ∈ w'.touched, ∃ name, volume = some name ∧ cfg.exportsFile name = some ev.path ∧
    (cfg.nfsClients = [] → (w.files.lookup ev.path).isSome)

theorem TouchesOwn.of_nothing {volume : Option Text} (h : w'.touched = []) :
    TouchesOwn cfg w volume w' := by
  intro ev hev
  rw [h] at hev
  cases hev

theorem Shrinks.refl (w : ZfsWorld) : Shrinks cfg w w :=
  ⟨fun _ _ => id, fun _ => id, fun _ _ => id⟩

theorem Shrinks.lose (h : Shrinks cfg w w') (path : Option Text) : Shrinks cfg w (w'.lose path) := by
  cases path with
  | none => exact h
  | some path =>
    refine ⟨h.reg, h.pool, fun hclients file hnone => ?_⟩
    show (w'.files.erase path).lookup file = none
    rw [Map.lookup_erase_eq, h.files hclients file hnone, ite_self]

/-- A dataset that was there may get other properties. -/
theorem Shrinks.put (h : Shrinks cfg w w') {name : Text} {n : DatasetName} {d : Dataset}
    (hfind : w'.pool.find name = some (n, d)) (d' : Dataset) : Shrinks cfg w (w'.put n d') := by
  refine ⟨h.reg, fun other hother => h.pool other ?_, h.files⟩
  obtain ⟨m, hm, hsome⟩ := Zpool.find_isSome.mp hother
  refine Zpool.find_isSome.mpr ⟨m, hm, ?_⟩
  rw [ZfsWorld.put, Map.lookup_insert_eq] at hsome
  split at hsome
  · next heq => rw [heq, (Zpool.find_eq_some.mp hfind).2, Option.isSome_some]
  · exact hsome

theorem Shrinks.leave (h : Shrinks cfg w w') (name mountpoint : Text) :
    Shrinks cfg w (w'.leave (exportLeft cfg env name mountpoint)) := by
  cases hleft : exportLeft cfg env name mountpoint with
  | none => exact h
  | some written =>
    have hclients := (exportLeft_eq_some.mp hleft).1.2.1
    exact ⟨h.reg, h.pool, fun hnone => absurd hnone hclients⟩

theorem Shrinks.destroyed (h : Shrinks cfg w w') (name : Text) (u : VolumeUuid) :
    Shrinks cfg w { w' with pool := w'.pool.without name, reg := w'.reg.removeVol u } := by
  refine ⟨fun v other hv => h.reg v other ?_, fun other hother => h.pool other ?_, h.files⟩
  · rw [Registry.lookup_removeVol] at hv
    split at hv
    · cases hv
    · exact hv
  · obtain ⟨m, hm, hsome⟩ := Zpool.find_isSome.mp hother
    obtain ⟨d, hd⟩ := Option.isSome_iff_exists.mp hsome
    have hthere := (Map.lookup_retain_eq_some.mp hd).1
    exact Zpool.find_isSome.mpr ⟨m, hm, by rw [hthere, Option.isSome_some]⟩

theorem mem_touched_lose {path : Option Text} {ev : FileEvent} (hfresh : w.touched = [])
    (h : ev ∈ (w.lose path).touched) : path = some ev.path := by
  cases path with
  | none =>
    rw [ZfsWorld.lose, hfresh] at h
    cases h
  | some path =>
    rw [ZfsWorld.lose, hfresh, List.nil_append] at h
    rw [List.mem_singleton.mp h]
    rfl

theorem mem_touched_leave {written : Option (Text × Text)} {ev : FileEvent} (hfresh : w.touched = [])
    (h : ev ∈ (w.leave written).touched) : ∃ left, written = some (ev.path, left) := by
  cases written with
  | none =>
    rw [ZfsWorld.leave, hfresh] at h
    cases h
  | some written =>
    obtain ⟨path, left⟩ := written
    rw [ZfsWorld.leave, hfresh, List.nil_append] at h
    rw [List.mem_singleton.mp h]
    exact ⟨left, rfl⟩

theorem deleteVolume_exports (hfresh : w.touched = []) :
    Shrinks cfg w (final (deleteVolume cfg env u) w) ∧
      TouchesOwn cfg w (w.reg.volByUuid.lookup u) (final (deleteVolume cfg env u) w) := by
  cases hreg : w.reg.volByUuid.lookup u with
  | none =>
    have hfails : Fails (deleteVolume cfg env u) w w := deleteVolume_unknown hreg
    rw [hfails.final]
    exact ⟨.refl w, .of_nothing hfresh⟩
  | some name =>
    have hown : TouchesOwn cfg w (some name) (w.lose (exportLost cfg env w name)) := by
      intro ev hev
      obtain ⟨-, hfile, hthere⟩ := exportLost_eq_some.mp (mem_touched_lose hfresh hev)
      exact ⟨name, rfl, hfile, fun _ => hthere⟩
    have hlose : Shrinks cfg w (w.lose (exportLost cfg env w name)) := (Shrinks.refl w).lose _
    rcases deleteVolume_final hreg with hfinal | hfinal
    · rw [hfinal]
      exact ⟨hlose, hown⟩
    · have hdestroyed := hlose.destroyed name u
      rw [ZfsWorld.lose_pool, ZfsWorld.lose_reg] at hdestroyed
      rw [hfinal]
      exact ⟨hdestroyed, hown⟩

theorem patchVolume_exports {patch : VolumePatch} (hfresh : w.touched = []) :
    Shrinks cfg w (final (patchVolume debug cfg env u patch) w) ∧
      TouchesOwn cfg w (w.reg.volByUuid.lookup u) (final (patchVolume debug cfg env u patch) w) := by
  cases hreg : w.reg.volByUuid.lookup u with
  | none =>
    have hfails : Fails (patchVolume debug cfg env u patch) w w := patchVolume_unknown hreg
    rw [hfails.final]
    exact ⟨.refl w, .of_nothing hfresh⟩
  | some name =>
    rcases patchVolume_final hreg with hfinal | ⟨n, d, d', hfind, hfinal | hfinal⟩
    · rw [hfinal]
      exact ⟨.refl w, .of_nothing hfresh⟩
    · rw [hfinal]
      exact ⟨(Shrinks.refl w).put hfind d', .of_nothing hfresh⟩
    · rw [hfinal]
      cases hpath : patch.junctionPath with
      | none => exact ⟨(Shrinks.refl w).put hfind d', .of_nothing hfresh⟩
      | some j =>
        refine ⟨((Shrinks.refl w).put hfind d').leave name (cfg.srvRoot ++ j), fun ev hev => ?_⟩
        obtain ⟨left, hleft⟩ := mem_touched_leave (w := w.put n d') hfresh hev
        obtain ⟨⟨-, hclients, -⟩, hfile, -⟩ := exportLeft_eq_some.mp hleft
        exact ⟨name, rfl, hfile, fun hempty => absurd hempty hclients⟩

/-- What one call does to files. -/
theorem step_exports {a : Act} (ha : OnExports a.call = true) (hstep : step debug cfg w a = some w') :
    Shrinks cfg w w' ∧ TouchesOwn cfg w (subject w a.call) w' := by
  -- Registry, pool and files of the start are those of the world, so what holds of it holds of both.
  have hsame : ∀ {t}, Shrinks cfg w.start t → Shrinks cfg w t := fun h => ⟨h.reg, h.pool, h.files⟩
  unfold step at hstep
  split at hstep
  · cases hstep
    obtain ⟨call, env⟩ := a
    cases call with
    | deleteVolume u =>
      obtain ⟨hshrinks, hown⟩ := deleteVolume_exports (w := w.start) (u := u) rfl
      exact ⟨hsame hshrinks, hown⟩
    | patchVolume u patch =>
      obtain ⟨hshrinks, hown⟩ := patchVolume_exports (w := w.start) (u := u) rfl
      dsimp only [exec]
      rw [final_discard]
      exact ⟨hsame hshrinks, hown⟩
    | _ => cases ha
  · cases hstep

/-! ## Volumes that share a file -/

/-- No live volume shares its export file with another registered volume, or there are no clients to
export to and no file. -/
def ExportsApart (cfg : ZfsSettings) (w : ZfsWorld) : Prop :=
  ∀ u name other path, w.reg.volByUuid.lookup u = some name → Live w other → other ≠ name →
    cfg.exportsFile name = some path → safeFilenameComponent other = safeFilenameComponent name →
    cfg.nfsClients = [] ∧ w.files.lookup path = none

theorem ExportsApart.shrinks (h : ExportsApart cfg w) (hshrinks : Shrinks cfg w w') :
    ExportsApart cfg w' := by
  intro u name other path hreg hlive hne hfile hsafe
  obtain ⟨⟨v, hv⟩, hpool⟩ := hlive
  have hlive : Live w other := ⟨⟨v, hshrinks.reg v other hv⟩, hshrinks.pool other hpool⟩
  obtain ⟨hclients, hnone⟩ := h u name other path (hshrinks.reg u name hreg) hlive hne hfile hsafe
  exact ⟨hclients, hshrinks.files hclients path hnone⟩

theorem exists_calm (p : Zpool) : ∃ datasets snapshots, (ZfsEnv.calm datasets snapshots).Prints p :=
  ⟨p.datasets.keys.toList, p.snapshots.keys.toList,
    ⟨Finset.nodup_toList _, Finset.toList_toFinset _⟩, Finset.nodup_toList _, Finset.toList_toFinset _⟩

/-- A deletion on a calm machine removes the export file. -/
theorem exists_removes (hmanage : cfg.manageKernelExports = true) {name path : Text}
    (hreg : w.reg.volByUuid.lookup u = some name) (hfile : cfg.exportsFile name = some path)
    (hthere : (w.files.lookup path).isSome) :
    ∃ env w', step debug cfg w ⟨.deleteVolume u, env⟩ = some w' ∧ .removed path ∈ w'.touched := by
  obtain ⟨datasets, snapshots, hprints⟩ := exists_calm w.pool
  refine ⟨.calm datasets snapshots, _, if_pos hprints, ?_⟩
  have hlost : exportLost cfg (.calm datasets snapshots) w.start name = some path :=
    exportLost_eq_some.mpr ⟨⟨hmanage, rfl⟩, hfile, hthere⟩
  show _ ∈ (final (deleteVolume cfg (.calm datasets snapshots) u) w.start).touched
  rcases deleteVolume_final (w := w.start) hreg with hfinal | hfinal
  · rw [hfinal, hlost]
    exact List.mem_singleton_self _
  · rw [hfinal, hlost]
    exact List.mem_singleton_self _

/-- A patch on a calm machine writes the export file, and the volume stays live. -/
theorem exists_writes (hmanage : cfg.manageKernelExports = true) (hclients : cfg.nfsClients ≠ [])
    {name path : Text} (hreg : w.reg.volByUuid.lookup u = some name) (hpool : (w.pool.find name).isSome)
    (hfile : cfg.exportsFile name = some path) :
    ∃ env w', step debug cfg w ⟨.patchVolume u ⟨none, some ['/'], none⟩, env⟩ = some w' ∧
      (w'.files.lookup path).isSome ∧ w'.reg = w.reg ∧ (w'.pool.find name).isSome := by
  obtain ⟨datasets, snapshots, hprints⟩ := exists_calm w.pool
  obtain ⟨⟨n, d⟩, hfind⟩ := Option.isSome_iff_exists.mp hpool
  have hname := (Zpool.find_eq_some.mp hfind).1
  let env : ZfsEnv := .calm datasets snapshots
  let patch : VolumePatch := ⟨none, some ['/'], none⟩
  have hleft : junctionLeft cfg env name patch.junctionPath =
      some (path, cfg.exportContent (cfg.srvRoot ++ ['/'])) :=
    exportLeft_eq_some.mpr ⟨⟨hmanage, hclients, rfl⟩, hfile, rfl⟩
  obtain ⟨v, hv⟩ : ∃ v, patchVolume debug cfg env u patch w.start = .ok v _ := by
    refine patchVolume_of_runs hreg hfind ?_ ?_ ?_ rfl
    · rintro _ ⟨⟩
      rfl
    · rintro _ ⟨⟩
    · rintro _ ⟨⟩
      exact ⟨rfl, fun _ => rfl⟩
  refine ⟨env, _, if_pos hprints, ?_⟩
  dsimp only [exec]
  rw [final_discard, final_of_ok hv, hleft]
  exact ⟨by simp [ZfsWorld.leave], rfl, by rw [ZfsWorld.leave_pool, ZfsWorld.find_put hname]; rfl⟩

theorem exists_registered {call : ZfsCall} {name : Text} (hcall : OnExports call = true)
    (h : subject w call = some name) : ∃ u, w.reg.volByUuid.lookup u = some name := by
  cases call with
  | deleteVolume u => exact ⟨u, h⟩
  | patchVolume u patch => exact ⟨u, h⟩
  | _ => cases hcall

/-- In every sequence of patches with a junction and deletions, files are touched in the exports
directory only and never those of another live volume: exactly if the volumes are apart at the
start. -/
theorem exports_apart_iff (debug : Text → String) (cfg : ZfsSettings)
    (hmanage : cfg.manageKernelExports = true) (w₀ : ZfsWorld) :
    (∀ acts w a w', Run (step debug cfg) (fun _ a => OnExports a.call = true) w₀ acts w →
      OnExports a.call = true → step debug cfg w a = some w' →
      ∀ ev ∈ w'.touched, LiesDirectlyIn cfg.exportsDir ev.path ∧
        ∀ other, Live w other → some other ≠ subject w a.call →
          cfg.exportsFile other ≠ some ev.path) ↔
    ExportsApart cfg w₀ := by
  constructor
  · intro h u name other path hreg hlive hne hfile hsafe
    obtain ⟨⟨v, hv⟩, hpool⟩ := hlive
    have hother : cfg.exportsFile other = some path :=
      (ZfsSettings.exportsFile_shared_iff hfile).mpr hsafe
    -- Once the file is there, deleting `name` removes it from under `other`.
    have hremove : ∀ acts w, Run (step debug cfg) (fun _ a => OnExports a.call = true) w₀ acts w →
        w.reg.volByUuid.lookup u = some name → Live w other → w.files.lookup path = none := by
      intro acts w hrun hreg hlive
      by_contra hthere
      obtain ⟨env, w', hstep, hmem⟩ :=
        exists_removes hmanage hreg hfile (Option.isSome_iff_ne_none.mpr hthere)
      refine (h acts w _ w' hrun rfl hstep _ hmem).2 other hlive ?_ hother
      show some other ≠ w.reg.volByUuid.lookup u
      rw [hreg]
      exact fun heq => hne (Option.some.inj heq)
    refine ⟨?_, hremove [] w₀ (.nil w₀) hreg ⟨⟨v, hv⟩, hpool⟩⟩
    by_contra hclients
    obtain ⟨env, w, hstep, hthere, hsame, hpool⟩ := exists_writes hmanage hclients hv hpool hother
    have hnone := hremove _ w (.cons rfl hstep (.nil w)) (hsame ▸ hreg) ⟨⟨v, hsame ▸ hv⟩, hpool⟩
    rw [hnone] at hthere
    cases hthere
  · intro hapart acts w a w' hrun ha hstep ev hev
    have hw : ExportsApart cfg w :=
      hrun.keeps (fun hk h hs => h.shrinks (step_exports hk hs).1) hapart
    obtain ⟨name, hname, hfile, hthere⟩ := (step_exports ha hstep).2 ev hev
    refine ⟨ZfsSettings.exportsFile_liesDirectlyIn hfile, fun other hlive hne hother => ?_⟩
    obtain ⟨u, hreg⟩ := exists_registered ha hname
    have hdiffer : other ≠ name := by
      rintro rfl
      exact hne hname.symm
    obtain ⟨hclients, hnone⟩ := hw u name other ev.path hreg hlive hdiffer hfile
      ((ZfsSettings.exportsFile_shared_iff hfile).mp hother)
    have hsome := hthere hclients
    rw [hnone] at hsome
    cases hsome

/-- Names that sanitising leaves alone are apart. -/
theorem exportsApart_of_plain
    (h : ∀ u name, w.reg.volByUuid.lookup u = some name → safeFilenameComponent name = name) :
    ExportsApart cfg w := by
  intro u name other path hreg hlive hne _ hsafe
  obtain ⟨⟨v, hv⟩, -⟩ := hlive
  rw [h u name hreg, h v other hv] at hsafe
  exact absurd hsafe hne

theorem exports_apart_plain :
    ∃ w, run (step (fun _ => "") sampleSettings) (fun _ _ => True) (.new emptyPool ∅) clonedVolume =
        some w ∧ sampleSettings.manageKernelExports = true ∧
      ∀ acts x a x', Run (step (fun _ => "") sampleSettings) (fun _ a => OnExports a.call = true)
        w acts x → OnExports a.call = true → step (fun _ => "") sampleSettings x a = some x' →
        ∀ ev ∈ x'.touched, LiesDirectlyIn sampleSettings.exportsDir ev.path ∧
          ∀ other, Live x other → some other ≠ subject x a.call →
            sampleSettings.exportsFile other ≠ some ev.path := by
  obtain ⟨w, hrun, hplain⟩ : ∃ w, run (step (fun _ => "") sampleSettings) (fun _ _ => True)
      (.new emptyPool ∅) clonedVolume = some w ∧ ∀ u ∈ w.reg.volByUuid.keys,
        ((w.reg.volByUuid.lookup u).all fun name => safeFilenameComponent name = name) = true :=
    run_exists (by decide +kernel)
  refine ⟨w, hrun, rfl, (exports_apart_iff _ _ rfl w).mpr (exportsApart_of_plain ?_)⟩
  intro u name hreg
  have hname := hplain u (Finmap.mem_keys.mpr (Finmap.mem_of_lookup_eq_some hreg))
  rw [hreg] at hname
  exact of_decide_eq_true hname

/-! ## Two names, one file -/

def datasetColon : DatasetName := ⟨"a:b".toList, by decide⟩

def datasetPlain : DatasetName := ⟨"ab".toList, by decide⟩

/-- Volumes `a:b` and `ab`, of which the second is exported. -/
def sharedFile : List Act :=
  [⟨.createVolume ⟨"a:b".toList, none⟩, .calm [] []⟩,
    ⟨.createVolume ⟨"ab".toList, none⟩, .calm [datasetColon] []⟩,
    ⟨.patchVolume ⟨1⟩ ⟨none, some "/ab".toList, none⟩, .calm [datasetColon, datasetPlain] []⟩]

def exportAB : Text := "/etc/exports.d/trident_ab.exports".toList

/-- A patch of `a:b` overwrites the export file of `ab`, and its deletion removes it. -/
theorem exports_shared :
    ∃ w, run (step (fun _ => "") sampleSettings) (fun _ _ => True) (.new emptyPool ∅) sharedFile =
        some w ∧ Live w "ab".toList ∧ w.reg.volByUuid.lookup ⟨0⟩ = some "a:b".toList ∧
      sampleSettings.exportsFile "ab".toList = some exportAB ∧
      (∃ x, step (fun _ => "") sampleSettings w
        ⟨.patchVolume ⟨0⟩ ⟨none, some "/c".toList, none⟩, .calm [datasetColon, datasetPlain] []⟩ =
          some x ∧ .wrote exportAB ∈ x.touched) ∧
      ∃ x, step (fun _ => "") sampleSettings w
        ⟨.deleteVolume ⟨0⟩, .calm [datasetColon, datasetPlain] []⟩ = some x ∧
          .removed exportAB ∈ x.touched ∧ x.files.lookup exportAB = none := by
  obtain ⟨w, hrun, hreg, hpool, hcolon, hpatch, hdelete⟩ : ∃ w,
      run (step (fun _ => "") sampleSettings) (fun _ _ => True) (.new emptyPool ∅) sharedFile =
        some w ∧ w.reg.volByUuid.lookup ⟨1⟩ = some "ab".toList ∧ (w.pool.find "ab".toList).isSome ∧
      w.reg.volByUuid.lookup ⟨0⟩ = some "a:b".toList ∧
      (step (fun _ => "") sampleSettings w ⟨.patchVolume ⟨0⟩ ⟨none, some "/c".toList, none⟩,
        .calm [datasetColon, datasetPlain] []⟩).any
          (fun x => decide (.wrote exportAB ∈ x.touched)) = true ∧
      (step (fun _ => "") sampleSettings w ⟨.deleteVolume ⟨0⟩,
        .calm [datasetColon, datasetPlain] []⟩).any
          (fun x => decide (.removed exportAB ∈ x.touched ∧ x.files.lookup exportAB = none)) = true :=
    run_exists (by decide +kernel)
  obtain ⟨x, hx, hwrote⟩ := (Option.any_eq_true _ _).mp hpatch
  obtain ⟨y, hy, hremoved⟩ := (Option.any_eq_true _ _).mp hdelete
  exact ⟨w, hrun, ⟨⟨⟨1⟩, hreg⟩, hpool⟩, hcolon, by decide, ⟨x, hx, of_decide_eq_true hwrote⟩,
    y, hy, of_decide_eq_true hremoved⟩

end ZfsBackend

end NessieStore
