import NessieStore.Lib.Run
import NessieStore.Volume.ZfsLaws

/-!
# A call alone is a run of its thread

`Volume.Zfs` cuts an operation into its registry sections and its commands, so that others may come
in between, over a pool that is a set of names. `Volume.ZfsBackend` runs the operation in one go,
over a pool with properties and rules of its own. The second refines the first: forget the
properties and the files (`ZfsWorld.shared`), and each call of the five that change pool and
registry is a run of its thread, with the same answer and the same pool and registry at the end
(`respond_alone`). What the richer pool refuses and the names do not show, a missing parent, a
clone, a name that ZFS does not allow, is a fault in the run of the thread.

`list_volumes` is not among them: the thread reads rows, and the call reads text, in which a
mountpoint may hold a tab or a line break.
-/

set_option autoImplicit false

namespace NessieStore

open Lib

/-! ## The names of a pool -/

namespace Zpool

def names (p : Zpool) : ZfsPool where
  datasets := p.datasets.keys.image Subtype.val
  snapshots := p.snapshots.keys.image fun k => (k.1.val, k.2.val)

variable {p p' : Zpool} {name dataset snap : Text}

theorem mem_names_datasets : name ∈ p.names.datasets ↔ (p.find name).isSome := by
  simp only [names, Finset.mem_image, Map.mem_keys_iff, find_isSome]
  constructor
  · rintro ⟨n, hn, hname⟩
    exact ⟨n, hname, hn⟩
  · rintro ⟨n, hname, hn⟩
    exact ⟨n, hn, hname⟩

theorem mem_names_snapshots :
    (dataset, snap) ∈ p.names.snapshots ↔ (p.findSnapshot dataset snap).isSome := by
  simp only [names, Finset.mem_image, Map.mem_keys_iff, Prod.mk.injEq, Option.isSome_iff_exists,
    findSnapshot_eq_some]
  constructor
  · rintro ⟨k, hk, hdataset, hsnap⟩
    exact ⟨k, hdataset, hsnap, hk⟩
  · rintro ⟨k, hdataset, hsnap, hk⟩
    exact ⟨k, hk, hdataset, hsnap⟩

theorem names_create {d : Dataset} (h : p.create name d = .ok p') :
    name ∉ p.names.datasets ∧ p'.names = { p.names with datasets := insert name p.names.datasets } := by
  obtain ⟨n, rfl, hnew, rfl⟩ := create_eq_ok h
  refine ⟨fun hmem => ?_, ?_⟩
  · obtain ⟨m, hm, hsome⟩ := find_isSome.mp (mem_names_datasets.mp hmem)
    rw [Subtype.ext hm, hnew] at hsome
    cases hsome
  · simp only [names, Map.keys_insert, Finset.image_insert]

theorem names_without (name : Text) : (p.without name).names =
    ⟨p.names.datasets.filter fun d => !below name d,
      p.names.snapshots.filter fun s => !below name s.1⟩ := by
  simp only [names, without, Map.keys_retain _ fun d : DatasetName => !below name d.val,
    Map.keys_retain _ fun k : DatasetName × SnapshotName => !below name k.1.val, Finset.filter_image]

theorem names_addSnapshot {n : DatasetName} {s : SnapshotName} {now : UInt64}
    (h : p.addSnapshot n s now = .ok p') :
    (n.val, s.val) ∉ p.names.snapshots ∧
      p'.names = { p.names with snapshots := insert (n.val, s.val) p.names.snapshots } := by
  obtain ⟨hnew, rfl⟩ := addSnapshot_eq_ok h
  refine ⟨fun hmem => ?_, ?_⟩
  · obtain ⟨k, hk⟩ := Option.isSome_iff_exists.mp (mem_names_snapshots.mp hmem)
    obtain ⟨hn, hs, hsome⟩ := findSnapshot_eq_some.mp hk
    rw [show k = (n, s) from Prod.ext (Subtype.ext hn) (Subtype.ext hs), hnew] at hsome
    cases hsome
  · simp only [names, Map.keys_insert, Finset.image_insert]

theorem names_destroySnapshot (h : p.destroySnapshot dataset snap = .ok p') :
    (dataset, snap) ∈ p.names.snapshots ∧
      p'.names = { p.names with snapshots := p.names.snapshots.erase (dataset, snap) } := by
  obtain ⟨k, hk, rfl⟩ := destroySnapshot_eq_ok h
  obtain ⟨rfl, rfl, -⟩ := findSnapshot_eq_some.mp hk
  refine ⟨mem_names_snapshots.mpr (by rw [hk]; rfl), ?_⟩
  have hinj : Function.Injective fun k : DatasetName × SnapshotName => (k.1.val, k.2.val) := by
    intro a b hab
    obtain ⟨hn, hs⟩ := Prod.mk.inj hab
    exact Prod.ext (Subtype.ext hn) (Subtype.ext hs)
  simp only [names, Finmap.keys_erase, Finset.image_erase hinj]

/-- What the pool with properties does, the pool of names does. -/
theorem names_apply {cfg : ZfsSettings} {env : ZfsEnv} {command : ZfsCommand} {out : Text}
    (h : p.apply cfg env (.zfs command) = .ok (p', out)) :
    p.names.apply command = .success p'.names := by
  cases command with
  | create name sizeBytes =>
    obtain ⟨hnew, hnames⟩ := names_create (of_map_eq_ok h)
    rw [ZfsPool.apply, if_neg hnew, hnames]
  | clone dataset snap name =>
    obtain ⟨k, hk, hcreate⟩ := clone_eq_ok (of_map_eq_ok h)
    obtain ⟨hnew, hnames⟩ := names_create hcreate
    have hmem : (dataset, snap) ∈ p.names.snapshots := mem_names_snapshots.mpr (by rw [hk]; rfl)
    rw [ZfsPool.apply, if_neg (not_not.mpr hmem), if_neg hnew, hnames]
  | destroy name =>
    obtain ⟨hfound, rfl⟩ := destroy_eq_ok (of_map_eq_ok h)
    rw [ZfsPool.apply, if_neg (not_not.mpr (mem_names_datasets.mpr hfound)), names_without]
  | snapshot dataset name =>
    obtain ⟨n, s, hfound, rfl, rfl, hadd⟩ := snapshot_eq_ok (of_map_eq_ok h)
    obtain ⟨hnew, hnames⟩ := names_addSnapshot hadd
    rw [ZfsPool.apply, if_neg (not_not.mpr (mem_names_datasets.mpr hfound)), if_neg hnew, hnames]
  | destroySnapshot dataset name =>
    obtain ⟨hmem, hnames⟩ := names_destroySnapshot (of_map_eq_ok h)
    rw [ZfsPool.apply, if_neg (not_not.mpr hmem), hnames]
  | list =>
    cases h
    rfl

end Zpool

/-! ## Threads -/

/-- What the calls share with the threads of `Volume.Zfs`. -/
def ZfsWorld.shared (w : ZfsWorld) : ZfsShared := ⟨w.pool.names, w.reg, w.supply⟩

namespace ZfsBackend

variable {cfg : ZfsSettings} {env : ZfsEnv} {w : ZfsWorld} {α β : Type}

def threadStep (cfg : ZfsConfig) (x : ZfsShared × ZfsThread) (ev : ZfsEvent) :
    Option (ZfsShared × ZfsThread) :=
  ZfsThread.step cfg x.1 x.2 ev

/-- The thread gets there with nobody in between. -/
def Reaches (cfg : ZfsConfig) (x y : ZfsShared × ZfsThread) : Prop :=
  ∃ evs, Run (threadStep cfg) (fun _ _ => True) x evs y

theorem Reaches.refl (cfg : ZfsConfig) (x : ZfsShared × ZfsThread) : Reaches cfg x x := ⟨[], .nil x⟩

theorem Reaches.head {cfg : ZfsConfig} {s : ZfsShared} {t : ZfsThread} {x y : ZfsShared × ZfsThread}
    {e : ZfsEvent} (hstep : ZfsThread.step cfg s t e = some x) (h : Reaches cfg x y) :
    Reaches cfg (s, t) y := by
  obtain ⟨evs, hrun⟩ := h
  exact ⟨e :: evs, .cons trivial hstep hrun⟩

/-- How a program ends, as a thread that has returned. -/
def ends (f : α → ZfsAnswer) (x : ZfsProgram α) (w : ZfsWorld) : ZfsShared × ZfsThread :=
  match x w with
  | .ok a w' => (w'.shared, .returned (.ok (f a)))
  | .error e w' => (w'.shared, .returned (.error e))

theorem ends_bind_of_ok {x : ZfsProgram α} {g : α → ZfsProgram β} {f : β → ZfsAnswer} {w' : ZfsWorld}
    {a : α} (h : x w = .ok a w') : ends f (x >>= g) w = ends f (g a) w' := by
  unfold ends
  rw [bind_of_ok h]

theorem ends_bind_of_error {x : ZfsProgram α} {g : α → ZfsProgram β} {f : β → ZfsAnswer}
    {w' : ZfsWorld} {e : ZfsError} (h : x w = .error e w') :
    ends f (x >>= g) w = (w'.shared, .returned (.error e)) := by
  unfold ends
  rw [bind_of_error h]

theorem ends_bind_congr {x y : ZfsProgram α} {g : α → ZfsProgram β} {f : β → ZfsAnswer}
    (h : x w = y w) : ends f (x >>= g) w = ends f (y >>= g) w := by
  have hbind : (x >>= g) w = (y >>= g) w := by
    show EStateM.bind x g w = EStateM.bind y g w
    rw [EStateM.bind, EStateM.bind, h]
  unfold ends
  rw [hbind]

section Steps

variable {t : ZfsThread} {f : β → ZfsAnswer}

/-- A registry section that looks up a volume. -/
theorem volName_alone {u : VolumeUuid} {g : Text → ZfsProgram β} {next : Text → ZfsThread}
    (hstep : ZfsThread.step cfg.toZfsConfig w.shared t .lock =
      some (ZfsThread.withName w.shared u next))
    (hnext : ∀ name, w.reg.volByUuid.lookup u = some name →
      Reaches cfg.toZfsConfig (w.shared, next name) (ends f (g name) w)) :
    Reaches cfg.toZfsConfig (w.shared, t) (ends f (volName u >>= g) w) := by
  refine .head hstep ?_
  unfold ZfsThread.withName
  cases hname : w.reg.volByUuid.lookup u with
  | some name =>
    rw [show w.shared.reg.volByUuid.lookup u = some name from hname,
      ends_bind_of_ok (volName_of_lookup hname)]
    exact hnext name hname
  | none =>
    have hfails : volName u w = .error (.backend (.volumeNotFound u)) w := by
      unfold volName
      rw [hname]
    rw [show w.shared.reg.volByUuid.lookup u = none from hname, ends_bind_of_error hfails]
    exact .refl _ _

/-- A registry section that looks up a snapshot. -/
theorem snapName_alone {vol : VolumeUuid} {snap : SnapshotUuid} {g : Text → ZfsProgram β}
    {next : Text → ZfsThread}
    (hstep : ZfsThread.step cfg.toZfsConfig w.shared t .lock =
      some (ZfsThread.withSnap w.shared vol snap next))
    (hnext : ∀ name, Reaches cfg.toZfsConfig (w.shared, next name) (ends f (g name) w)) :
    Reaches cfg.toZfsConfig (w.shared, t) (ends f (snapName vol snap >>= g) w) := by
  refine .head hstep ?_
  have hmissing : snapName vol snap w = .error (.backend (.snapshotNotFound vol snap)) w →
      Reaches cfg.toZfsConfig (w.shared, .returned (.error (.backend (.snapshotNotFound vol snap))))
        (ends f (snapName vol snap >>= g) w) := by
    intro hfails
    rw [ends_bind_of_error hfails]
    exact .refl _ _
  unfold ZfsThread.withSnap
  cases hsnap : w.reg.snapByUuid.lookup snap with
  | none =>
    rw [show w.shared.reg.snapByUuid.lookup snap = none from hsnap]
    refine hmissing ?_
    unfold snapName
    rw [hsnap]
  | some entry =>
    obtain ⟨vol', name⟩ := entry
    rw [show w.shared.reg.snapByUuid.lookup snap = some (vol', name) from hsnap]
    dsimp only
    by_cases hvol : vol' = vol
    · have hfound : snapName vol snap w = .ok name w := by
        unfold snapName
        rw [hsnap]
        exact if_pos hvol
      rw [if_pos hvol, ends_bind_of_ok hfound]
      exact hnext name
    · rw [if_neg hvol]
      refine hmissing ?_
      unfold snapName
      rw [hsnap]
      exact if_neg hvol

/-- A checked command. -/
theorem runChecked_alone {command : ZfsCommand} {g : Text → ZfsProgram β} {next : ZfsThread}
    (hstep : ∀ fault, ZfsThread.step cfg.toZfsConfig w.shared t (.command fault) =
      some (ZfsThread.exec cfg.toZfsConfig w.shared fault command next))
    (hnext : ∀ out pool, w.pool.apply cfg env (.zfs command) = .ok (pool, out) →
      Reaches cfg.toZfsConfig ({ w with pool }.shared, next) (ends f (g out) { w with pool })) :
    Reaches cfg.toZfsConfig (w.shared, t) (ends f (runChecked cfg env (.zfs command) >>= g) w) := by
  cases hfault : env.fault (.zfs command) 0 with
  | some fault =>
    refine .head (hstep (some fault)) ?_
    cases fault with
    | exit stderr =>
      rw [ends_bind_of_error (runChecked_of_complaint (runner_of_exit hfault))]
      exact .refl _ _
    | spawn message =>
      rw [ends_bind_of_error (runChecked_of_spawn hfault)]
      exact .refl _ _
  | none =>
    cases happly : w.pool.apply cfg env (.zfs command) with
    | error stderr =>
      -- The names do not show the reason, so the thread meets it as a fault.
      refine .head (hstep (some (.exit stderr))) ?_
      rw [ends_bind_of_error (runChecked_of_complaint (runner_of_refused hfault happly))]
      exact .refl _ _
    | ok r =>
      obtain ⟨pool, out⟩ := r
      refine .head (hstep none) ?_
      rw [ends_bind_of_ok (runChecked_of_applied hfault happly)]
      have hexec : ZfsThread.exec cfg.toZfsConfig w.shared none command next =
          ({ w with pool }.shared, next) := by
        have hnames : w.shared.pool.run none command = .success pool.names := Zpool.names_apply happly
        unfold ZfsThread.exec
        rw [hnames]
        rfl
      rw [hexec]
      exact hnext out pool happly

end Steps

/-! ## Calls -/

theorem createVolume_alone (spec : VolumeSpec) :
    Reaches cfg.toZfsConfig (w.shared, .createVolume spec)
      (ends .volume (createVolume cfg env spec) w) := by
  refine runChecked_alone (fun fault => rfl) fun out pool _ => ?_
  exact .head (e := .lock) rfl (.refl _ _)

theorem createClone_alone (vol : VolumeUuid) (snap : SnapshotUuid) (name : Text) :
    Reaches cfg.toZfsConfig (w.shared, .createClone vol snap name)
      (ends .volume (createClone cfg env vol snap name) w) := by
  refine volName_alone rfl fun parent _ => ?_
  refine snapName_alone rfl fun snapshot => ?_
  refine runChecked_alone (fun fault => rfl) fun out pool _ => ?_
  exact .head (e := .lock) rfl (.refl _ _)

theorem createSnapshot_alone (vol : VolumeUuid) (name : Text) :
    Reaches cfg.toZfsConfig (w.shared, .createSnapshot vol name)
      (ends .snapshot (createSnapshot cfg env vol name) w) := by
  refine volName_alone rfl fun dataset _ => ?_
  refine runChecked_alone (fun fault => rfl) fun out pool _ => ?_
  exact .head (e := .lock) rfl (.refl _ _)

theorem deleteSnapshot_alone (vol : VolumeUuid) (snap : SnapshotUuid) :
    Reaches cfg.toZfsConfig (w.shared, .deleteSnapshot vol snap)
      (ends (fun _ => .done) (deleteSnapshot cfg env vol snap) w) := by
  refine snapName_alone rfl fun name => ?_
  refine volName_alone rfl fun dataset _ => ?_
  refine runChecked_alone (fun fault => rfl) fun out pool _ => ?_
  exact .head (e := .lock) rfl (.refl _ _)

/-- One attempt at a destroy, and what follows on it. -/
theorem attempt_alone {u : VolumeUuid} {name : Text} {left attempt : Nat}
    (h : attempt + left = cfg.maxDestroyRetries)
    (hnext : 0 < left → Reaches cfg.toZfsConfig (w.shared, .destroying u name (attempt + 1))
      (ends (fun _ => .done)
        (destroyFrom cfg env name (left - 1) (attempt + 1) >>= fun _ => removeVol u) w)) :
    Reaches cfg.toZfsConfig (w.shared, .destroying u name attempt)
      (ends (fun _ => .done) (destroyFrom cfg env name left attempt >>= fun _ => removeVol u) w) := by
  rcases runner_cases cfg env w (.zfs (.destroy name)) attempt with ⟨message, hrun⟩ |
    ⟨stderr, hrun⟩ | ⟨pool, out, happly, hrun⟩
  · have hfails : destroyFrom cfg env name left attempt w =
        .error (.commandFailed ((ZfsCommand.destroy name).text cfg.toZfsConfig) message) w := by
      rw [destroyFrom.eq_def]
      exact bind_of_error hrun
    refine .head (e := .command (some (.spawn message))) rfl ?_
    rw [ends_bind_of_error hfails]
    exact .refl _ _
  · have hagain := destroyFrom_of_complaint hrun left
    refine .head (e := .command (some (.exit stderr))) rfl ?_
    show Reaches _ (if "busy".toList <:+: stderr ∧ attempt < cfg.maxDestroyRetries then _ else _) _
    by_cases hbusy : "busy".toList <:+: stderr ∧ 0 < left
    · rw [if_pos hbusy] at hagain
      rw [if_pos ⟨hbusy.1, by omega⟩, ends_bind_congr hagain]
      exact hnext hbusy.2
    · rw [if_neg hbusy] at hagain
      rw [if_neg fun h' => hbusy ⟨h'.1, by omega⟩, ends_bind_of_error hagain]
      exact .refl _ _
  · have hdone : destroyFrom cfg env name left attempt w = .ok () { w with pool } := by
      rw [destroyFrom.eq_def]
      exact bind_of_ok hrun
    have hnames : w.shared.pool.run none (.destroy name) = .success pool.names :=
      Zpool.names_apply happly
    have hdestroy : ZfsThread.destroy cfg.toZfsConfig w.shared none u name attempt =
        ({ w with pool }.shared, .destroyed u) := by
      unfold ZfsThread.destroy
      rw [hnames]
      rfl
    refine .head (e := .command none) rfl ?_
    rw [hdestroy, ends_bind_of_ok hdone]
    exact .head (e := .lock) rfl (.refl _ _)

theorem destroyFrom_alone (u : VolumeUuid) (name : Text) {left attempt : Nat}
    (h : attempt + left = cfg.maxDestroyRetries) :
    Reaches cfg.toZfsConfig (w.shared, .destroying u name attempt)
      (ends (fun _ => .done) (destroyFrom cfg env name left attempt >>= fun _ => removeVol u) w) := by
  induction left generalizing attempt with
  | zero => exact attempt_alone h fun hpos => absurd hpos (Nat.lt_irrefl 0)
  | succ left ih => exact attempt_alone h fun _ => ih (by omega)

/-- The removal of the export file is none of the thread's steps. -/
theorem deleteVolume_alone (u : VolumeUuid) :
    Reaches cfg.toZfsConfig (w.shared, .deleteVolume u)
      (ends (fun _ => .done) (deleteVolume cfg env u) w) := by
  refine volName_alone rfl fun name _ => ?_
  rw [ends_bind_of_ok (nfsUnexport_eq name)]
  have hshared : (w.lose (exportLost cfg env w name)).shared = w.shared := by
    cases exportLost cfg env w name <;> rfl
  rw [← hshared]
  exact destroyFrom_alone u name (Nat.zero_add _)

/-- The call that a request of `Volume.Zfs` stands for. -/
def respond (cfg : ZfsSettings) (env : ZfsEnv) : ZfsRequest → ZfsProgram ZfsAnswer
  | .createVolume spec => .volume <$> createVolume cfg env spec
  | .createClone vol snap name => .volume <$> createClone cfg env vol snap name
  | .deleteVolume u => (fun _ => .done) <$> deleteVolume cfg env u
  | .createSnapshot vol name => .snapshot <$> createSnapshot cfg env vol name
  | .deleteSnapshot vol snap => (fun _ => .done) <$> deleteSnapshot cfg env vol snap
  | .listVolumes => .volumes <$> listVolumes cfg env

theorem ends_map (f : α → ZfsAnswer) (x : ZfsProgram α) : ends id (f <$> x) w = ends f x w := by
  have hmap : (f <$> x) w = EStateM.map f x w := rfl
  unfold ends
  rw [hmap, EStateM.map]
  cases x w <;> rfl

/-- A call is a run of its thread, with the answer, the pool and the registry that the call leaves. -/
theorem respond_alone (cfg : ZfsSettings) (env : ZfsEnv) (w : ZfsWorld) (r : ZfsRequest)
    (hr : r ≠ .listVolumes) :
    Reaches cfg.toZfsConfig (w.shared, r.thread) (ends id (respond cfg env r) w) := by
  cases r with
  | createVolume spec =>
    rw [respond, ends_map]
    exact createVolume_alone spec
  | createClone vol snap name =>
    rw [respond, ends_map]
    exact createClone_alone vol snap name
  | deleteVolume u =>
    rw [respond, ends_map]
    exact deleteVolume_alone u
  | createSnapshot vol name =>
    rw [respond, ends_map]
    exact createSnapshot_alone vol name
  | deleteSnapshot vol snap =>
    rw [respond, ends_map]
    exact deleteSnapshot_alone vol snap
  | listVolumes => exact absurd rfl hr

/-- A backend that has made the volume `a`. -/
def oneVolumeWorld (cfg : ZfsSettings) : ZfsWorld :=
  final (createVolume cfg (.calm [] []) ⟨"a".toList, none⟩) (.new ⟨∅, ∅⟩ ∅)

/-- The volume gets a snapshot: the thread ends with it in the pool, and answers with it. -/
theorem respond_alone_snapshot :
    ∃ (cfg : ZfsSettings) (s : ZfsShared) (snap : Snapshot),
      (oneVolumeWorld cfg).shared.pool = ⟨{"a".toList}, ∅⟩ ∧
      Reaches cfg.toZfsConfig ((oneVolumeWorld cfg).shared, .createSnapshot ⟨0⟩ "s".toList)
        (s, .returned (.ok (.snapshot snap))) ∧
      s.pool = ⟨{"a".toList}, {("a".toList, "s".toList)}⟩ := by
  let cfg : ZfsSettings := ⟨⟨"tank".toList, "/srv".toList, 5⟩, [], [], none, none, [], false, by decide⟩
  let env : ZfsEnv := .calm [⟨"a".toList, by decide⟩] []
  have hthread : ∃ snap, (ends id (respond cfg env (.createSnapshot ⟨0⟩ "s".toList))
      (oneVolumeWorld cfg)).2 = .returned (.ok (.snapshot snap)) := ⟨_, rfl⟩
  obtain ⟨snap, hthread⟩ := hthread
  refine ⟨cfg, (ends id (respond cfg env (.createSnapshot ⟨0⟩ "s".toList)) (oneVolumeWorld cfg)).1,
    snap, by decide +kernel, ?_, ?_⟩
  · rw [← hthread]
    exact respond_alone cfg env (oneVolumeWorld cfg) (.createSnapshot ⟨0⟩ "s".toList) (by simp)
  · decide +kernel

end ZfsBackend

end NessieStore
