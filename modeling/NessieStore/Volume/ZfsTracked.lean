import NessieStore.Volume.Identity
import NessieStore.Volume.ZfsAlone
import NessieStore.Volume.ZfsAtomic

/-!
# What stays registered

Volumes and snapshots get their uuids when they are made or first listed, and keep them until they
are deleted. `Tracked` is the invariant of the registry over every run of calls: tables that are
inverse, uuids that were issued, and one uuid for a snapshot. A call that destroys nothing only adds
to pool and registry (`exec_grown`). A deletion takes the entries of what it destroys, and of
nothing else: what is known of a snapshot that is still there afterwards stays known
(`step_follows`, and `run_known` for runs along which the snapshot exists).
-/

set_option autoImplicit false

namespace NessieStore

open Lib

/-! ## Pools that grow -/

namespace Zpool

variable {cfg : ZfsSettings} {env : ZfsEnv} {p p' q : Zpool}

/-- Every dataset and every snapshot of the one pool is in the other. -/
structure Within (p p' : Zpool) : Prop where
  datasets : ∀ n, (p.datasets.lookup n).isSome → (p'.datasets.lookup n).isSome
  snapshots : ∀ k, (p.snapshots.lookup k).isSome → (p'.snapshots.lookup k).isSome

theorem Within.refl (p : Zpool) : Within p p := ⟨fun _ => id, fun _ => id⟩

theorem Within.trans (h : Within p p') (h' : Within p' q) : Within p q :=
  ⟨fun n hn => h'.datasets n (h.datasets n hn), fun k hk => h'.snapshots k (h.snapshots k hk)⟩

theorem Within.insert (p : Zpool) (n : DatasetName) (d : Dataset) :
    Within p { p with datasets := p.datasets.insert n d } :=
  ⟨fun _ => Map.isSome_lookup_insert, fun _ => id⟩

theorem Within.find {name : Text} (h : Within p p') (hfind : (p.find name).isSome) :
    (p'.find name).isSome := by
  obtain ⟨n, hn, hd⟩ := find_isSome.mp hfind
  exact find_isSome.mpr ⟨n, hn, h.datasets n hd⟩

theorem create_within {name : Text} {d : Dataset} (h : p.create name d = .ok p') : Within p p' := by
  obtain ⟨n, -, -, rfl⟩ := create_eq_ok h
  exact .insert p n d

theorem adjust_within {name : Text} {f : Dataset → Dataset} (h : p.adjust name f = .ok p') :
    Within p p' := by
  obtain ⟨n, d, -, rfl⟩ := adjust_eq_ok h
  exact .insert p n (f d)

theorem addSnapshot_within {n : DatasetName} {s : SnapshotName} {now : UInt64}
    (h : p.addSnapshot n s now = .ok p') : Within p p' := by
  obtain ⟨-, rfl⟩ := addSnapshot_eq_ok h
  exact ⟨fun _ => id, fun _ => Map.isSome_lookup_insert⟩

theorem receive_within {dest mountpoint : Text} {stream : ZfsStream} {now : UInt64}
    (h : p.receive dest mountpoint stream now = .ok p') : Within p p' := by
  unfold receive at h
  split at h
  · split at h
    · cases h
    · obtain ⟨q, hcreate, hadd⟩ := ok_of_bind h
      exact (create_within hcreate).trans (addSnapshot_within hadd)
  · split at h
    · cases h
    · exact addSnapshot_within h
  · cases h
  · split at h
    · exact addSnapshot_within h
    · cases h

/-- The command destroys nothing. -/
def Mild : HostCommand → Bool
  | .zfs (.destroy _) | .zfs (.destroySnapshot _ _) => false
  | _ => true

theorem apply_within {command : HostCommand} {out : Text} (hmild : Mild command = true)
    (h : p.apply cfg env command = .ok (p', out)) : Within p p' := by
  cases command with
  | zfs command =>
    cases command with
    | create name sizeBytes => exact create_within (of_map_eq_ok h)
    | clone dataset snap name =>
      obtain ⟨_, -, hcreate⟩ := clone_eq_ok (of_map_eq_ok h)
      exact create_within hcreate
    | destroy name => cases hmild
    | snapshot dataset name =>
      obtain ⟨n, s, -, -, -, hadd⟩ := snapshot_eq_ok (of_map_eq_ok h)
      exact addSnapshot_within hadd
    | destroySnapshot dataset name => cases hmild
    | list =>
      cases h
      exact .refl p
  | setQuota name size => exact adjust_within (of_map_eq_ok h)
  | setMountpoint name target => exact adjust_within (of_map_eq_ok h)
  | receive dest stream => exact receive_within (of_map_eq_ok h)
  | getMountpoint name | listDataset name | listSnapshots name =>
    simp only [apply] at h
    split at h
    · cases h
    · cases h
      exact .refl p
  | exportfs | chown owner path | chmod mode path =>
    cases h
    exact .refl p

end Zpool
/-! ## The registry -/

namespace Registry

variable {r : Registry} {fresh : SnapshotUuid} {vol : VolumeUuid} {name : Text}

theorem lookup_of_snapNamed {u : SnapshotUuid} (h : r.snapNamed vol name = some u) :
    r.snapByUuid.lookup u = some (vol, name) := by
  unfold snapNamed at h
  dsimp only at h
  split at h
  · cases h
  · next id hmin =>
    cases h
    obtain ⟨v, hv, rfl⟩ := Finset.mem_image.mp (Finset.mem_of_min hmin)
    exact (Finset.mem_filter.mp hv).2

theorem not_lookup_of_snapNamed (h : r.snapNamed vol name = none) (u : SnapshotUuid) :
    r.snapByUuid.lookup u ≠ some (vol, name) := by
  intro hu
  unfold snapNamed at h
  dsimp only at h
  split at h
  · next hmin =>
    have hempty := Finset.min_eq_top.mp hmin
    have hmem : u ∈ r.snapByUuid.keys.filter fun u => r.snapByUuid.lookup u = some (vol, name) :=
      Finset.mem_filter.mpr ⟨Map.mem_keys_iff.mpr (by rw [hu]; rfl), hu⟩
    rw [Finset.image_eq_empty.mp hempty] at hmem
    cases hmem
  · cases h

theorem registerSnap_resolves :
    (r.registerSnap fresh vol name).2.snapByUuid.lookup (r.registerSnap fresh vol name).1 =
      some (vol, name) := by
  unfold registerSnap
  cases hnamed : r.snapNamed vol name with
  | some u => exact lookup_of_snapNamed hnamed
  | none => exact Finmap.lookup_insert _

/-- A registration adds one entry at most, for a snapshot that had none. -/
theorem registerSnap_snaps (r : Registry) (fresh : SnapshotUuid) (vol : VolumeUuid) (name : Text) :
    (r.registerSnap fresh vol name).2.snapByUuid = r.snapByUuid ∨
      r.snapNamed vol name = none ∧ (r.registerSnap fresh vol name).2.snapByUuid =
        r.snapByUuid.insert fresh (vol, name) := by
  unfold registerSnap
  cases hnamed : r.snapNamed vol name with
  | some u => exact .inl rfl
  | none => exact .inr ⟨rfl, rfl⟩

theorem registerVol_snaps (freshVol : VolumeUuid) :
    (r.registerVol freshVol name).2.snapByUuid = r.snapByUuid := by
  unfold registerVol
  cases r.volByName.lookup name <;> rfl

theorem lookup_removeVol_snaps {u : VolumeUuid} {snap : SnapshotUuid} {other : VolumeUuid × Text}
    (h : r.snapByUuid.lookup snap = some other) (hne : other.1 ≠ u) :
    (r.removeVol u).snapByUuid.lookup snap = some other := by
  unfold removeVol
  cases r.volByUuid.lookup u with
  | none => exact h
  | some name => exact Map.lookup_retain_eq_some.mpr ⟨h, by simpa using hne⟩

theorem lookup_of_removeVol_snaps {u : VolumeUuid} {snap : SnapshotUuid} {other : VolumeUuid × Text}
    (h : (r.removeVol u).snapByUuid.lookup snap = some other) :
    r.snapByUuid.lookup snap = some other := by
  unfold removeVol at h
  cases hu : r.volByUuid.lookup u with
  | none =>
    rw [hu] at h
    exact h
  | some name =>
    rw [hu] at h
    exact (Map.lookup_retain_eq_some.mp h).1

end Registry

namespace ZfsBackend

/-- The tables of volumes are sound, and each snapshot that is registered has one uuid, which was
issued. -/
structure Tracked (w : ZfsWorld) : Prop where
  sound : w.shared.Sound
  issued : ∀ u x, w.reg.snapByUuid.lookup u = some x → u.id < w.supply
  unique : ∀ u u' x, w.reg.snapByUuid.lookup u = some x → w.reg.snapByUuid.lookup u' = some x → u = u'

variable {debug : Text → String} {cfg : ZfsSettings} {env : ZfsEnv} {w w' w₀ : ZfsWorld}

theorem Tracked.new (pool : Zpool) (files : Map Text Text) : Tracked (.new pool files) where
  sound := .new _
  issued u x h := by simp [ZfsWorld.new, Registry.empty] at h
  unique u u' x h := by simp [ZfsWorld.new, Registry.empty] at h

theorem Tracked.fresh (h : Tracked w) : w.reg.snapByUuid.lookup ⟨w.supply⟩ = none := by
  cases hu : w.reg.snapByUuid.lookup ⟨w.supply⟩ with
  | none => rfl
  | some x => exact absurd (h.issued _ x hu) (Nat.lt_irrefl _)

/-- No snapshot is registered that was not before. -/
theorem Tracked.shrink (h : Tracked w) (hsound : w'.shared.Sound) (hle : w.supply ≤ w'.supply)
    (hsnaps : ∀ u x, w'.reg.snapByUuid.lookup u = some x → w.reg.snapByUuid.lookup u = some x) :
    Tracked w' where
  sound := hsound
  issued u x hu := Nat.lt_of_lt_of_le (h.issued u x (hsnaps u x hu)) hle
  unique u u' x hu hu' := h.unique u u' x (hsnaps u x hu) (hsnaps u' x hu')

/-- What is registered stays registered, and no dataset or snapshot goes. -/
structure Grown (w w' : ZfsWorld) : Prop where
  tracked : Tracked w'
  vols : ∀ u name, w.reg.volByUuid.lookup u = some name → w'.reg.volByUuid.lookup u = some name
  snaps : ∀ u x, w.reg.snapByUuid.lookup u = some x → w'.reg.snapByUuid.lookup u = some x
  pool : w.pool.Within w'.pool

theorem Grown.refl (h : Tracked w) : Grown w w := ⟨h, fun _ _ => id, fun _ _ => id, .refl _⟩

theorem Grown.trans {x : ZfsWorld} (h : Grown w w') (h' : Grown w' x) : Grown w x :=
  ⟨h'.tracked, fun u name hu => h'.vols u name (h.vols u name hu),
    fun u x hu => h'.snaps u x (h.snaps u x hu), h.pool.trans h'.pool⟩

/-- Registry and supply are the same, and the pool grows. -/
theorem Grown.of_same (h : Tracked w) (hreg : w'.reg = w.reg) (hsupply : w'.supply = w.supply)
    (hpool : w.pool.Within w'.pool) : Grown w w' := by
  have hsound : w'.shared.Sound :=
    h.sound.of_same ⟨congrArg (·.volByUuid) hreg, congrArg (·.volByName) hreg⟩ hsupply.ge
  refine ⟨h.shrink hsound hsupply.ge ?_, ?_, ?_, hpool⟩
  all_goals
    rw [hreg]
    exact fun _ _ => id

theorem Grown.registerVol (h : Tracked w) (name : Text) : Grown w
    { w with reg := (w.reg.registerVol ⟨w.supply⟩ name).2, supply := w.supply + 1 } := by
  have hsnaps : (w.reg.registerVol ⟨w.supply⟩ name).2.snapByUuid = w.reg.snapByUuid :=
    Registry.registerVol_snaps ⟨w.supply⟩
  refine ⟨h.shrink (h.sound.register name) (Nat.le_succ w.supply) ?_,
    fun u other hu => h.sound.register_keeps hu name, ?_, .refl _⟩
  all_goals
    rw [hsnaps]
    exact fun _ _ => id

theorem Grown.registerSnap (h : Tracked w) (vol : VolumeUuid) (name : Text) : Grown w
    { w with reg := (w.reg.registerSnap ⟨w.supply⟩ vol name).2, supply := w.supply + 1 } := by
  obtain ⟨hvols, hnames⟩ := ZfsThread.registerSnap_same w.reg ⟨w.supply⟩ vol name
  have hsound : ZfsShared.Sound ⟨w.pool.names, (w.reg.registerSnap ⟨w.supply⟩ vol name).2,
      w.supply + 1⟩ := h.sound.of_same ⟨hvols, hnames⟩ (Nat.le_succ w.supply)
  have hkeep : ∀ u other, w.reg.volByUuid.lookup u = some other →
      (w.reg.registerSnap ⟨w.supply⟩ vol name).2.volByUuid.lookup u = some other := by
    rw [hvols]
    exact fun _ _ => id
  rcases w.reg.registerSnap_snaps ⟨w.supply⟩ vol name with hsame | ⟨hnew, hinsert⟩
  · refine ⟨h.shrink hsound (Nat.le_succ w.supply) ?_, hkeep, ?_, .refl _⟩
    all_goals
      rw [hsame]
      exact fun _ _ => id
  · -- The new entry is the only one of its uuid and the only one of its snapshot.
    have hother := Registry.not_lookup_of_snapNamed hnew
    refine ⟨⟨hsound, ?_, ?_⟩, hkeep, ?_, .refl _⟩
    · intro u x hu
      rw [hinsert, Map.lookup_insert_eq] at hu
      split at hu
      · next heq =>
        rw [heq]
        exact Nat.lt_succ_self w.supply
      · exact Nat.lt_succ_of_lt (h.issued u x hu)
    · intro u u' x hu hu'
      rw [hinsert, Map.lookup_insert_eq] at hu hu'
      split at hu <;> split at hu'
      · next heq heq' => rw [heq, heq']
      · cases hu
        exact absurd hu' (hother u')
      · cases hu'
        exact absurd hu (hother u)
      · exact h.unique u u' x hu hu'
    · intro u x hu
      rw [hinsert, Map.lookup_insert_eq, if_neg, hu]
      rintro rfl
      rw [h.fresh] at hu
      cases hu

/-! ## What a call does to the registry and to snapshots -/

section Keeps

variable {P : ZfsWorld → Prop}

theorem volName_keeps (u : VolumeUuid) : Triple P (volName u) (fun _ => P) P := by
  intro w hw
  unfold volName
  cases w.reg.volByUuid.lookup u <;> exact hw

theorem snapName_keeps (vol : VolumeUuid) (snap : SnapshotUuid) :
    Triple P (snapName vol snap) (fun _ => P) P := by
  intro w hw
  cases hrun : snapName vol snap w with
  | ok name t => exact (snapName_eq_ok hrun).1 ▸ hw
  | error e t => exact fails_snapName ⟨e, hrun⟩ ▸ hw

theorem runner_keeps {command : HostCommand} (attempt : Nat)
    (h : ∀ w pool out, P w → w.pool.apply cfg env command = .ok (pool, out) → P { w with pool }) :
    Triple P (runner cfg env command attempt) (fun _ => P) P := by
  intro w hw
  rcases runner_cases cfg env w command attempt with ⟨message, hrun⟩ | ⟨stderr, hrun⟩ |
    ⟨pool, out, happly, hrun⟩
  · rw [hrun]
    exact hw
  · rw [hrun]
    exact hw
  · rw [hrun]
    exact h w pool out hw happly

theorem runChecked_keeps {command : HostCommand}
    (h : ∀ w pool out, P w → w.pool.apply cfg env command = .ok (pool, out) → P { w with pool }) :
    Triple P (runChecked cfg env command) (fun _ => P) P := by
  refine (runner_keeps 0 h).bind fun out => ?_
  cases out with
  | ok stdout => exact .pure fun _ => id
  | error stderr => exact .throw fun _ => id

end Keeps

theorem runner_grown {command : HostCommand} (hmild : Zpool.Mild command = true) (attempt : Nat) :
    Triple (Grown w₀) (runner cfg env command attempt) (fun _ => Grown w₀) (Grown w₀) :=
  runner_keeps attempt fun _ _ _ hw h =>
    hw.trans (.of_same hw.tracked rfl rfl (Zpool.apply_within hmild h))

theorem runChecked_grown {command : HostCommand} (hmild : Zpool.Mild command = true) :
    Triple (Grown w₀) (runChecked cfg env command) (fun _ => Grown w₀) (Grown w₀) :=
  runChecked_keeps fun _ _ _ hw h =>
    hw.trans (.of_same hw.tracked rfl rfl (Zpool.apply_within hmild h))

theorem registerVol_grown (name : Text) :
    Triple (Grown w₀) (registerVol name) (fun _ => Grown w₀) (Grown w₀) :=
  fun _ hw => hw.trans (.registerVol hw.tracked name)

theorem registerSnap_grown (vol : VolumeUuid) (name : Text) :
    Triple (Grown w₀) (registerSnap vol name) (fun _ => Grown w₀) (Grown w₀) :=
  fun _ hw => hw.trans (.registerSnap hw.tracked vol name)

theorem readVolumes_grown (ls : List Text) :
    Triple (Grown w₀) (readVolumes cfg ls) (fun _ => Grown w₀) (Grown w₀) := by
  induction ls with
  | nil => exact .pure fun _ => id
  | cons line ls ih =>
    unfold readVolumes
    split
    · split
      · exact ih
      · refine (registerVol_grown _).bind fun uuid => ih.bind fun vols => ?_
        exact .pure fun _ => id
    · exact ih

/-- The name that `list_snapshots` reads from a row. -/
def rowName (line : Text) : Option Text :=
  match line.splitOn '\t' with
  | full :: _ :: _ :: _ :: _ => some ((rsplitOnce ['@'] full).elim full Prod.snd)
  | _ => none

theorem readSnapshots_cons_of_none {vol : VolumeUuid} {line : Text} (h : rowName line = none)
    (ls : List Text) : readSnapshots vol (line :: ls) = readSnapshots vol ls := by
  unfold rowName at h
  rw [readSnapshots]
  rcases hsplit : line.splitOn '\t' with _ | ⟨a, _ | ⟨b, _ | ⟨c, _ | ⟨d, rest⟩⟩⟩⟩
  case cons.cons.cons.cons =>
    rw [hsplit] at h
    cases h
  all_goals rfl

theorem readSnapshots_cons_of_some (vol : VolumeUuid) {line name : Text}
    (h : rowName line = some name) (ls : List Text) :
    ∃ createTime size, readSnapshots vol (line :: ls) = (do
      let uuid ← registerSnap vol name
      return ⟨uuid, name, createTime, size⟩ :: (← readSnapshots vol ls)) := by
  unfold rowName at h
  rw [readSnapshots]
  rcases hsplit : line.splitOn '\t' with _ | ⟨a, _ | ⟨b, _ | ⟨c, _ | ⟨d, rest⟩⟩⟩⟩
  case cons.cons.cons.cons =>
    rw [hsplit] at h
    cases h
    exact ⟨_, _, rfl⟩
  all_goals
    rw [hsplit] at h
    cases h

/-- A listing returns one record for each row, with a uuid that resolves to the volume and the name.
-/
theorem readSnapshots_spec (vol : VolumeUuid) (ls : List Text) (h : Tracked w) :
    ∃ snaps w', readSnapshots vol ls w = .ok snaps w' ∧ Grown w w' ∧ w'.pool = w.pool ∧
      snaps.map (·.name) = ls.filterMap rowName ∧
      ∀ r ∈ snaps, w'.reg.snapByUuid.lookup r.uuid = some (vol, r.name) := by
  induction ls generalizing w with
  | nil => exact ⟨[], w, rfl, .refl h, rfl, rfl, fun r hr => by cases hr⟩
  | cons line ls ih =>
    rw [List.filterMap_cons]
    cases hrow : rowName line with
    | none =>
      rw [readSnapshots_cons_of_none hrow]
      exact ih h
    | some name =>
      obtain ⟨createTime, size, hread⟩ := readSnapshots_cons_of_some vol hrow ls
      have hfirst := Grown.registerSnap h vol name
      obtain ⟨snaps, w', hrun, hmore, hpool, hnames, hresolve⟩ := ih hfirst.tracked
      refine ⟨⟨(w.reg.registerSnap ⟨w.supply⟩ vol name).1, name, createTime, size⟩ :: snaps, w', ?_,
        hfirst.trans hmore, hpool, ?_, ?_⟩
      · rw [hread]
        exact (bind_of_ok rfl).trans (bind_of_ok hrun)
      · rw [List.map_cons, hnames]
      · intro r hr
        rcases List.mem_cons.mp hr with rfl | hr
        · exact hmore.snaps _ _ Registry.registerSnap_resolves
        · exact hresolve r hr

theorem listSnapshots_grown (vol : VolumeUuid) :
    Triple (Grown w₀) (listSnapshots cfg env vol) (fun _ => Grown w₀) (Grown w₀) := by
  refine (volName_keeps vol).bind fun name => (runChecked_grown rfl).bind fun out w hw => ?_
  obtain ⟨snaps, w', hrun, hgrown, -⟩ := readSnapshots_spec vol (lines out) hw.tracked
  rw [hrun]
  exact hw.trans hgrown

/-- The calls that destroy. -/
def Destroying : ZfsCall → Bool
  | .deleteVolume _ | .deleteSnapshot _ _ => true
  | _ => false

theorem patchVolume_grown {u : VolumeUuid} {patch : VolumePatch} (h : Tracked w) :
    Grown w (final (patchVolume debug cfg env u patch) w) := by
  have hleave : ∀ n d written, Grown w ((w.put n d).leave written) := by
    intro n d written
    refine .of_same h (ZfsWorld.leave_reg _) ?_ ?_
    · cases written <;> rfl
    · rw [ZfsWorld.leave_pool]
      exact .insert w.pool n d
  cases hreg : w.reg.volByUuid.lookup u with
  | none =>
    have hfails : Fails (patchVolume debug cfg env u patch) w w := patchVolume_unknown hreg
    rw [hfails.final]
    exact .refl h
  | some name =>
    rcases patchVolume_final hreg with hfinal | ⟨n, d, d', -, hfinal | hfinal⟩
    · rw [hfinal]
      exact .refl h
    · rw [hfinal]
      exact hleave n d' none
    · rw [hfinal]
      exact hleave n d' _

/-- A call that destroys nothing keeps all that is registered. -/
theorem exec_grown {call : ZfsCall} (hcall : Destroying call = false) (h : Tracked w) :
    Grown w (final (exec debug cfg env call) w) := by
  have hstart := Grown.refl h
  cases call with
  | listVolumes =>
    rw [exec, final_discard]
    exact ((runChecked_grown rfl).bind fun out => readVolumes_grown (lines out)).final hstart
  | createVolume spec =>
    rw [exec, final_discard]
    refine Triple.final ?_ hstart
    exact (runChecked_grown rfl).bind fun _ => (registerVol_grown _).bind fun _ => .pure fun _ => id
  | getVolume u =>
    rw [exec, final_discard]
    refine Triple.final ?_ hstart
    refine (volName_keeps u).bind fun name => (runner_grown rfl 0).bind fun out => ?_
    cases out with
    | ok stdout => exact .pure fun _ => id
    | error stderr => exact .throw fun _ => id
  | deleteVolume u => cases hcall
  | patchVolume u patch =>
    rw [exec, final_discard]
    exact patchVolume_grown h
  | accessHandle u =>
    rw [exec, final_discard]
    refine Triple.final ?_ hstart
    exact (volName_keeps u).bind fun _ => (runChecked_grown rfl).bind fun _ => .pure fun _ => id
  | listSnapshots vol =>
    rw [exec, final_discard]
    exact (listSnapshots_grown vol).final hstart
  | createSnapshot vol name =>
    rw [exec, final_discard]
    refine Triple.final ?_ hstart
    exact (volName_keeps vol).bind fun _ => (runChecked_grown rfl).bind fun _ =>
      (registerSnap_grown vol name).bind fun _ => .pure fun _ => id
  | getSnapshot vol snap =>
    rw [exec, final_discard]
    refine Triple.final ?_ hstart
    refine (snapName_keeps vol snap).bind fun name => (listSnapshots_grown vol).bind fun snaps => ?_
    split
    · exact .pure fun _ => id
    · exact .throw fun _ => id
  | deleteSnapshot vol snap => cases hcall
  | createClone vol snap name =>
    rw [exec, final_discard]
    refine Triple.final ?_ hstart
    exact (volName_keeps vol).bind fun _ => (snapName_keeps vol snap).bind fun _ =>
      (runChecked_grown rfl).bind fun _ => (registerVol_grown name).bind fun _ => .pure fun _ => id
  | receiveStream dest stream =>
    have hrun : Triple (Grown w) (receiveStream cfg env dest stream) (fun _ => Grown w) (Grown w) :=
      (runChecked_grown rfl).bind fun _ => (registerVol_grown dest).bind fun _ => .pure fun _ => id
    exact hrun.final hstart

/-! ## Deletions -/

/-- The world without a snapshot and without its uuid. -/
def dropSnap (w : ZfsWorld) (k : DatasetName × SnapshotName) (snap : SnapshotUuid) : ZfsWorld :=
  { w with
    pool := { w.pool with snapshots := w.pool.snapshots.erase k }
    reg := w.reg.removeSnap snap }

section Delete

variable {vol : VolumeUuid} {snap : SnapshotUuid} {name s : Text} {k : DatasetName × SnapshotName}

/-- The deletion of a snapshot that exists destroys it, or does nothing because the command failed or
a clone needs the snapshot. -/
theorem deleteSnapshot_of_known (hvol : w.reg.volByUuid.lookup vol = some name)
    (hsnap : w.reg.snapByUuid.lookup snap = some (vol, s))
    (hk : w.pool.findSnapshot name s = some k) :
    deleteSnapshot cfg env vol snap w = .ok () (dropSnap w k snap) ∨
      Fails (deleteSnapshot cfg env vol snap) w w ∧
        (env.fault (.zfs (.destroySnapshot name s)) 0 ≠ none ∨ w.pool.Cloned k) := by
  have hdestroy : w.pool.destroySnapshot name s = if w.pool.Cloned k then
      .error "snapshot has dependent clones".toList
      else .ok { w.pool with snapshots := w.pool.snapshots.erase k } := by
    unfold Zpool.destroySnapshot
    rw [hk]
  by_cases hfree : env.fault (.zfs (.destroySnapshot name s)) 0 = none ∧ ¬ w.pool.Cloned k
  · have happly : w.pool.apply cfg env (.zfs (.destroySnapshot name s)) =
        .ok ({ w.pool with snapshots := w.pool.snapshots.erase k }, []) := by
      show (w.pool.destroySnapshot name s).map (·, []) = _
      rw [hdestroy, if_neg hfree.2]
      rfl
    refine .inl ?_
    rw [deleteSnapshot, bind_of_ok (snapName_of_lookup hsnap), bind_of_ok (volName_of_lookup hvol),
      bind_of_ok (runChecked_of_applied hfree.1 happly)]
    rfl
  · have hnot : ¬ Works cfg env w.pool (.zfs (.destroySnapshot name s)) := by
      rintro ⟨hfault, ⟨pool, out⟩, happly⟩
      refine hfree ⟨hfault, fun hcloned => ?_⟩
      have hok : w.pool.destroySnapshot name s = .ok pool := Zpool.of_map_eq_ok happly
      rw [hdestroy, if_pos hcloned] at hok
      cases hok
    refine .inr ⟨?_, ?_⟩
    · rw [deleteSnapshot, fails_bind_of_ok (snapName_of_lookup hsnap),
        fails_bind_of_ok (volName_of_lookup hvol), fails_bind_of_fails (runChecked_of_not_works hnot)]
    · rw [Classical.not_and_iff_not_or_not, not_not] at hfree
      exact hfree

theorem deleteSnapshot_final (vol : VolumeUuid) (snap : SnapshotUuid) :
    final (deleteSnapshot cfg env vol snap) w = w ∨
      ∃ name s k, w.reg.volByUuid.lookup vol = some name ∧
        w.reg.snapByUuid.lookup snap = some (vol, s) ∧ w.pool.findSnapshot name s = some k ∧
        final (deleteSnapshot cfg env vol snap) w = dropSnap w k snap := by
  cases hread : snapName vol snap w with
  | error e t =>
    have hfails : Fails (snapName vol snap) w t := ⟨e, hread⟩
    obtain rfl := fails_snapName hfails
    exact .inl ((fails_bind_of_fails hfails).mpr rfl).final
  | ok s t =>
    obtain ⟨rfl, hsnap⟩ := snapName_eq_ok hread
    cases hvol : t.reg.volByUuid.lookup vol with
    | none =>
      have hfails : Fails (volName vol) t t := fails_volName_iff.mpr ⟨rfl, by simp [hvol]⟩
      exact .inl ((fails_bind_of_ok hread).mpr ((fails_bind_of_fails hfails).mpr rfl)).final
    | some name =>
      cases hk : t.pool.findSnapshot name s with
      | some k =>
        rcases deleteSnapshot_of_known hvol hsnap hk with hok | ⟨hfails, -⟩
        · exact .inr ⟨name, s, k, rfl, hsnap, hk, final_of_ok hok⟩
        · exact .inl hfails.final
      | none =>
        have hnot : ¬ Works cfg env t.pool (.zfs (.destroySnapshot name s)) := by
          rintro ⟨-, ⟨pool, out⟩, happly⟩
          obtain ⟨k, hsome, -⟩ := Zpool.destroySnapshot_eq_ok (Zpool.of_map_eq_ok happly)
          rw [hk] at hsome
          cases hsome
        refine .inl (Fails.final ?_)
        rw [deleteSnapshot, fails_bind_of_ok hread, fails_bind_of_ok (volName_of_lookup hvol),
          fails_bind_of_fails (runChecked_of_not_works hnot)]

end Delete

/-! ## What is known of a snapshot while it exists -/

/-- The volume and the snapshot are registered, and the dataset is in the pool. -/
structure Known (w : ZfsWorld) (vol : VolumeUuid) (name : Text) (snap : SnapshotUuid) (s : Text) :
    Prop where
  volume : w.reg.volByUuid.lookup vol = some name
  snapshot : w.reg.snapByUuid.lookup snap = some (vol, s)
  dataset : (w.pool.find name).isSome

/-- The later world keeps all that is known of the snapshots that it still has. -/
structure Follows (w w' : ZfsWorld) : Prop where
  tracked : Tracked w'
  known : ∀ {vol name snap s}, Known w vol name snap s → (w'.pool.findSnapshot name s).isSome →
    Known w' vol name snap s

theorem Known.grow {vol : VolumeUuid} {name : Text} {snap : SnapshotUuid} {s : Text}
    (h : Known w vol name snap s) (hgrown : Grown w w') : Known w' vol name snap s where
  volume := hgrown.vols vol name h.volume
  snapshot := hgrown.snaps snap _ h.snapshot
  dataset := hgrown.pool.find h.dataset

theorem Grown.follows (h : Grown w w') : Follows w w' := ⟨h.tracked, fun hknown _ => hknown.grow h⟩

theorem Tracked.removeVol (h : Tracked w) {u : VolumeUuid} (hreg : w'.reg = w.reg.removeVol u)
    (hsupply : w'.supply = w.supply) : Tracked w' := by
  have hsound : w'.shared.Sound := (h.sound.removeVol u).of_same
    ⟨congrArg (·.volByUuid) hreg, congrArg (·.volByName) hreg⟩ hsupply.ge
  refine h.shrink hsound hsupply.ge ?_
  rw [hreg]
  exact fun _ _ => Registry.lookup_of_removeVol_snaps

theorem lookup_of_removeSnap {r : Registry} {snap u : SnapshotUuid} {x : VolumeUuid × Text}
    (h : (r.removeSnap snap).snapByUuid.lookup u = some x) : r.snapByUuid.lookup u = some x := by
  have hlookup : (r.snapByUuid.erase snap).lookup u = some x := h
  rw [Map.lookup_erase_eq] at hlookup
  split at hlookup
  · cases hlookup
  · exact hlookup

theorem Tracked.dropSnap (h : Tracked w) (k : DatasetName × SnapshotName) (snap : SnapshotUuid) :
    Tracked (dropSnap w k snap) :=
  h.shrink ⟨h.sound.inverse, h.sound.issued⟩ le_rfl fun _ _ => lookup_of_removeSnap

/-- What is left of a pool was not below the dataset that went. -/
theorem find_without {p : Zpool} {gone name s : Text}
    (h : ((p.without gone).findSnapshot name s).isSome) : below gone name = false ∧
      ((p.find name).isSome → ((p.without gone).find name).isSome) := by
  obtain ⟨k, hk⟩ := Option.isSome_iff_exists.mp h
  obtain ⟨hname, -, hsome⟩ := Zpool.findSnapshot_eq_some.mp hk
  obtain ⟨creation, hcreation⟩ := Option.isSome_iff_exists.mp hsome
  have hkeep := (Map.lookup_retain_eq_some.mp hcreation).2
  rw [hname] at hkeep
  refine ⟨by simpa using hkeep, fun hfind => ?_⟩
  obtain ⟨n, hn, hd⟩ := Zpool.find_isSome.mp hfind
  obtain ⟨d, hd⟩ := Option.isSome_iff_exists.mp hd
  refine Zpool.find_isSome.mpr ⟨n, hn, Option.isSome_iff_exists.mpr ⟨d, ?_⟩⟩
  refine Map.lookup_retain_eq_some.mpr ⟨hd, ?_⟩
  rw [hn]
  exact hkeep

theorem below_self (name : Text) : below name name = true := by
  simp [below]

theorem deleteVolume_follows (h : Tracked w) (u : VolumeUuid) :
    Follows w (final (deleteVolume cfg env u) w) := by
  cases hreg : w.reg.volByUuid.lookup u with
  | none =>
    rw [(deleteVolume_unknown hreg).final]
    exact (Grown.refl h).follows
  | some gone =>
    have hlose : (w.lose (exportLost cfg env w gone)).supply = w.supply := by
      cases exportLost cfg env w gone <;> rfl
    rcases deleteVolume_final hreg with hfinal | hfinal
    · rw [hfinal]
      refine (Grown.of_same h (ZfsWorld.lose_reg _) hlose ?_).follows
      rw [ZfsWorld.lose_pool]
      exact .refl w.pool
    · rw [hfinal]
      refine ⟨h.removeVol rfl hlose, fun {vol name snap s} hknown hpresent => ?_⟩
      obtain ⟨hbelow, hfind⟩ := find_without hpresent
      -- The volume that went is another one, since its dataset took its snapshots along.
      have hne : vol ≠ u := by
        rintro rfl
        have hname := hknown.volume
        rw [hreg] at hname
        cases hname
        rw [below_self] at hbelow
        cases hbelow
      refine ⟨?_, ?_, hfind hknown.dataset⟩
      · show (w.reg.removeVol u).volByUuid.lookup vol = some name
        rw [Registry.lookup_removeVol, if_neg hne]
        exact hknown.volume
      · exact Registry.lookup_removeVol_snaps hknown.snapshot hne

theorem deleteSnapshot_follows (h : Tracked w) (vol : VolumeUuid) (snap : SnapshotUuid) :
    Follows w (final (deleteSnapshot cfg env vol snap) w) := by
  rcases deleteSnapshot_final vol snap with hfinal | ⟨gone, t, k, hvol, hsnap, hk, hfinal⟩
  · rw [hfinal]
    exact (Grown.refl h).follows
  · rw [hfinal]
    refine ⟨h.dropSnap k snap, fun {v name u s} hknown hpresent => ?_⟩
    -- The uuid that went is another one, since its snapshot went with it.
    have hne : u ≠ snap := by
      rintro rfl
      have hsame := hknown.snapshot
      rw [hsnap] at hsame
      cases hsame
      have hname := hknown.volume
      rw [hvol] at hname
      cases hname
      obtain ⟨k', hk'⟩ := Option.isSome_iff_exists.mp hpresent
      obtain ⟨hn, hs, hsome⟩ := Zpool.findSnapshot_eq_some.mp hk'
      obtain ⟨hn', hs', -⟩ := Zpool.findSnapshot_eq_some.mp hk
      have heq : k' = k := Prod.ext (Subtype.ext (hn.trans hn'.symm)) (Subtype.ext (hs.trans hs'.symm))
      have hlookup : ((w.pool.snapshots.erase k).lookup k').isSome := hsome
      rw [heq, Finmap.lookup_erase] at hlookup
      cases hlookup
    refine ⟨hknown.volume, ?_, hknown.dataset⟩
    show (w.reg.snapByUuid.erase snap).lookup u = some (v, s)
    rw [Finmap.lookup_erase_ne hne]
    exact hknown.snapshot

theorem step_follows {a : Act} (h : Tracked w) (hstep : step debug cfg w a = some w') :
    Follows w w' := by
  have hstart : Tracked w.start := ⟨h.sound, h.issued, h.unique⟩
  have hfollows : Follows w.start (final (exec debug cfg a.env a.call) w.start) := by
    cases hcall : Destroying a.call with
    | false => exact (exec_grown hcall hstart).follows
    | true =>
      cases a with
      | mk call env =>
        cases call with
        | deleteVolume u => exact deleteVolume_follows hstart u
        | deleteSnapshot vol snap => exact deleteSnapshot_follows hstart vol snap
        | _ => cases hcall
  unfold step at hstep
  split at hstep
  · cases hstep
    exact ⟨hfollows.tracked, fun hknown =>
      hfollows.known ⟨hknown.volume, hknown.snapshot, hknown.dataset⟩⟩
  · cases hstep

/-- Every reachable world is tracked. -/
theorem run_tracked {K : ZfsWorld → Act → Prop} {as : List Act}
    (hrun : Run (step debug cfg) K w as w') (h : Tracked w) : Tracked w' :=
  hrun.keeps (fun _ ht hstep => (step_follows ht hstep).tracked) h

/-- What is known of a snapshot stays known as long as the snapshot is there. -/
theorem run_known {vol : VolumeUuid} {name : Text} {snap : SnapshotUuid} {s : Text} {as : List Act}
    (hrun : Run (step debug cfg) (fun x _ => (x.pool.findSnapshot name s).isSome) w as w')
    (h : Tracked w) (hknown : Known w vol name snap s)
    (hpresent : (w'.pool.findSnapshot name s).isSome) : Known w' vol name snap s := by
  have hkeep : Tracked w' ∧ ((w'.pool.findSnapshot name s).isSome → Known w' vol name snap s) := by
    refine hrun.keeps (I := fun x => Tracked x ∧
      ((x.pool.findSnapshot name s).isSome → Known x vol name snap s)) ?_ ⟨h, fun _ => hknown⟩
    rintro x y a hx ⟨htracked, hrest⟩ hstep
    have hfollows := step_follows htracked hstep
    exact ⟨hfollows.tracked, hfollows.known (hrest hx)⟩
  exact hkeep.2 hpresent

end ZfsBackend

end NessieStore
