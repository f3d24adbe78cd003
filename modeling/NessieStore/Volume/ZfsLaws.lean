import NessieStore.Volume.ZfsBackend

/-!
# What the helpers of the ZFS backend do

One law for each helper of the calls, so that no statement about a call has to look into one. A
checked command returns exactly if nothing keeps it from its work and the pool lets it, and fails
without a trace (`runChecked_of_applied`, `fails_runChecked_iff`). The best-effort helpers never
fail, and what they leave behind is a function of the world before. A destroy succeeds exactly if
every attempt before the one that meets no fault was turned away as busy (`Destroys`).
-/

set_option autoImplicit false

namespace NessieStore

open Lib

/-- A machine on which everything goes well, and which prints these rows. -/
def ZfsEnv.calm (datasets : List DatasetName) (snapshots : List (DatasetName × SnapshotName)) :
    ZfsEnv where
  fault _ _ := none
  makeDir := true
  write := .done
  unlink := true
  now := 0
  datasets := datasets
  snapshots := snapshots
  space _ := ([], [])
  poolMountpoint := []
  usage _ := (0, 0)

/-! ## Changes of the world -/

namespace ZfsWorld

/-- The world with a dataset in place of the one of that name. -/
def put (w : ZfsWorld) (n : DatasetName) (d : Dataset) : ZfsWorld :=
  { w with pool := { w.pool with datasets := w.pool.datasets.insert n d } }

/-- The world with a file written. -/
def leave (w : ZfsWorld) : Option (Text × Text) → ZfsWorld
  | none => w
  | some (path, content) =>
    { w with files := w.files.insert path content, touched := w.touched ++ [.wrote path] }

/-- The world with a file removed. -/
def lose (w : ZfsWorld) : Option Text → ZfsWorld
  | none => w
  | some path => { w with files := w.files.erase path, touched := w.touched ++ [.removed path] }

variable {w : ZfsWorld} {n : DatasetName} {d : Dataset}

theorem find_put {name : Text} (h : n.val = name) : (w.put n d).pool.find name = some (n, d) :=
  Zpool.find_eq_some.mpr ⟨h, Finmap.lookup_insert _⟩

theorem put_self {name : Text} (h : w.pool.find name = some (n, d)) : w.put n d = w := by
  unfold put
  rw [Map.insert_self (Zpool.find_eq_some.mp h).2]

theorem put_put (d' : Dataset) : (w.put n d).put n d' = w.put n d' := by
  unfold put
  rw [Finmap.insert_insert]

@[simp] theorem put_reg : (w.put n d).reg = w.reg := rfl

@[simp] theorem put_files : (w.put n d).files = w.files := rfl

@[simp] theorem put_touched : (w.put n d).touched = w.touched := rfl

@[simp] theorem leave_pool (written : Option (Text × Text)) : (w.leave written).pool = w.pool := by
  cases written <;> rfl

@[simp] theorem leave_reg (written : Option (Text × Text)) : (w.leave written).reg = w.reg := by
  cases written <;> rfl

@[simp] theorem lose_pool (path : Option Text) : (w.lose path).pool = w.pool := by
  cases path <;> rfl

@[simp] theorem lose_reg (path : Option Text) : (w.lose path).reg = w.reg := by
  cases path <;> rfl

end ZfsWorld

namespace ZfsBackend

variable {debug : Text → String} {cfg : ZfsSettings} {env : ZfsEnv} {w w' : ZfsWorld}

theorem volName_of_lookup {u : VolumeUuid} {name : Text}
    (h : w.reg.volByUuid.lookup u = some name) : volName u w = .ok name w := by
  unfold volName
  rw [h]

theorem fails_volName_iff {u : VolumeUuid} :
    Fails (volName u) w w' ↔ w' = w ∧ ¬ (w.reg.volByUuid.lookup u).isSome := by
  refine fails_iff_of (fun h => ?_) fun h => ?_
  · obtain ⟨name, hname⟩ := Option.isSome_iff_exists.mp h
    exact ⟨name, w, volName_of_lookup hname⟩
  · refine ⟨.backend (.volumeNotFound u), ?_⟩
    unfold volName
    rw [Option.not_isSome_iff_eq_none.mp h]

theorem fails_snapName {vol : VolumeUuid} {snap : SnapshotUuid} (h : Fails (snapName vol snap) w w') :
    w' = w := by
  obtain ⟨e, he⟩ := h
  unfold snapName at he
  split at he
  · split at he
    · cases he
    · cases he
      rfl
  · cases he
    rfl

theorem snapName_eq_ok {vol : VolumeUuid} {snap : SnapshotUuid} {name : Text}
    (h : snapName vol snap w = .ok name w') :
    w' = w ∧ w.reg.snapByUuid.lookup snap = some (vol, name) := by
  unfold snapName at h
  split at h
  · next vol' name' hsnap =>
    split at h
    · next hvol =>
      cases h
      exact ⟨rfl, hvol ▸ hsnap⟩
    · cases h
  · cases h

theorem snapName_of_lookup {vol : VolumeUuid} {snap : SnapshotUuid} {name : Text}
    (h : w.reg.snapByUuid.lookup snap = some (vol, name)) : snapName vol snap w = .ok name w := by
  unfold snapName
  rw [h]
  exact if_pos rfl

theorem volName_eq_ok {u : VolumeUuid} {name : Text} (h : volName u w = .ok name w') :
    w' = w ∧ w.reg.volByUuid.lookup u = some name := by
  unfold volName at h
  split at h
  · next name' hname =>
    cases h
    exact ⟨rfl, hname⟩
  · cases h

/-! ## Commands -/

section Commands

variable (cfg env)

/-- Nothing keeps the command from its work, and the pool lets it. -/
def Works (p : Zpool) (command : HostCommand) : Prop :=
  env.fault command 0 = none ∧ ∃ r, p.apply cfg env command = .ok r

variable {cfg env}

theorem runner_of_refused {command : HostCommand} {attempt : Nat} {stderr : Text}
    (hfault : env.fault command attempt = none)
    (happly : w.pool.apply cfg env command = .error stderr) :
    runner cfg env command attempt w = .ok (.error stderr) w := by
  unfold runner
  rw [hfault]
  dsimp only
  rw [happly]

theorem runner_of_applied {command : HostCommand} {attempt : Nat} {pool : Zpool} {stdout : Text}
    (hfault : env.fault command attempt = none)
    (happly : w.pool.apply cfg env command = .ok (pool, stdout)) :
    runner cfg env command attempt w = .ok (.ok stdout) { w with pool } := by
  unfold runner
  rw [hfault]
  dsimp only
  rw [happly]

theorem runner_of_exit {command : HostCommand} {attempt : Nat} {stderr : Text}
    (hfault : env.fault command attempt = some (.exit stderr)) :
    runner cfg env command attempt w = .ok (.error stderr) w := by
  unfold runner
  rw [hfault]

theorem runner_of_spawn {command : HostCommand} {attempt : Nat} {message : Text}
    (hfault : env.fault command attempt = some (.spawn message)) :
    runner cfg env command attempt w =
      .error (.commandFailed (command.text cfg.toZfsConfig) message) w := by
  unfold runner
  rw [hfault]

theorem runChecked_of_complaint {command : HostCommand} {stderr : Text}
    (h : runner cfg env command 0 w = .ok (.error stderr) w) :
    runChecked cfg env command w = .error (.commandFailed (command.text cfg.toZfsConfig) stderr) w :=
  bind_of_ok h

theorem runChecked_of_spawn {command : HostCommand} {message : Text}
    (hfault : env.fault command 0 = some (.spawn message)) :
    runChecked cfg env command w = .error (.commandFailed (command.text cfg.toZfsConfig) message) w :=
  bind_of_error (runner_of_spawn hfault)

variable (cfg env w) in
/-- A command is not run, complains, or does its work. -/
theorem runner_cases (command : HostCommand) (attempt : Nat) :
    (∃ message, runner cfg env command attempt w =
        .error (.commandFailed (command.text cfg.toZfsConfig) message) w) ∨
      (∃ stderr, runner cfg env command attempt w = .ok (.error stderr) w) ∨
      ∃ pool stdout, w.pool.apply cfg env command = .ok (pool, stdout) ∧
        runner cfg env command attempt w = .ok (.ok stdout) { w with pool } := by
  cases hfault : env.fault command attempt with
  | some fault =>
    cases fault with
    | exit stderr => exact .inr (.inl ⟨stderr, runner_of_exit hfault⟩)
    | spawn message => exact .inl ⟨message, runner_of_spawn hfault⟩
  | none =>
    cases happly : w.pool.apply cfg env command with
    | error stderr => exact .inr (.inl ⟨stderr, runner_of_refused hfault happly⟩)
    | ok r => exact .inr (.inr ⟨r.1, r.2, rfl, runner_of_applied hfault happly⟩)

theorem runChecked_of_applied {command : HostCommand} {pool : Zpool} {stdout : Text}
    (hfault : env.fault command 0 = none)
    (happly : w.pool.apply cfg env command = .ok (pool, stdout)) :
    runChecked cfg env command w = .ok stdout { w with pool } :=
  bind_of_ok (runner_of_applied hfault happly)

theorem runChecked_of_not_works {command : HostCommand} (h : ¬ Works cfg env w.pool command) :
    Fails (runChecked cfg env command) w w := by
  cases hfault : env.fault command 0 with
  | none =>
    cases happly : w.pool.apply cfg env command with
    | error stderr => exact ⟨_, runChecked_of_complaint (runner_of_refused hfault happly)⟩
    | ok r => exact absurd ⟨hfault, r, happly⟩ h
  | some fault =>
    cases fault with
    | exit stderr => exact ⟨_, runChecked_of_complaint (runner_of_exit hfault)⟩
    | spawn message => exact ⟨_, runChecked_of_spawn hfault⟩

/-- A checked command that fails changes nothing. -/
theorem fails_runChecked_iff {command : HostCommand} :
    Fails (runChecked cfg env command) w w' ↔ w' = w ∧ ¬ Works cfg env w.pool command := by
  refine fails_iff_of ?_ runChecked_of_not_works
  rintro ⟨hfault, ⟨pool, out⟩, happly⟩
  exact ⟨out, _, runChecked_of_applied hfault happly⟩

/-- A command that leaves the pool alone and whose outcome is thrown away does nothing. -/
theorem bestEffort_eq {command : HostCommand} (h : w.pool.apply cfg env command = .ok (w.pool, [])) :
    bestEffort cfg env command w = .ok () w := by
  have hrun : ∃ out, attempt (runner cfg env command 0) w = .ok out w := by
    unfold Lib.attempt
    cases hfault : env.fault command 0 with
    | none =>
      rw [runner_of_applied hfault h]
      exact ⟨_, rfl⟩
    | some fault =>
      cases fault with
      | exit stderr =>
        rw [runner_of_exit hfault]
        exact ⟨_, rfl⟩
      | spawn message =>
        rw [runner_of_spawn hfault]
        exact ⟨_, rfl⟩
  obtain ⟨out, hout⟩ := hrun
  exact bind_of_ok hout

end Commands

/-! ## Exports -/

section Exports

variable (cfg env)

/-- The file that an export opens and what it leaves in it. -/
def exportLeft (name mountpoint : Text) : Option (Text × Text) :=
  if cfg.manageKernelExports = true ∧ cfg.nfsClients ≠ [] ∧ env.makeDir = true then
    (cfg.exportsFile name).bind fun path =>
      (env.write.left (cfg.exportContent mountpoint)).map fun left => (path, left)
  else none

/-- The file that an unexport removes. -/
def exportLost (w : ZfsWorld) (name : Text) : Option Text :=
  if cfg.manageKernelExports = true ∧ env.unlink = true then
    (cfg.exportsFile name).filter fun path => (w.files.lookup path).isSome
  else none

variable {cfg env}

theorem exportLeft_eq_some {name mountpoint path left : Text} :
    exportLeft cfg env name mountpoint = some (path, left) ↔
      (cfg.manageKernelExports = true ∧ cfg.nfsClients ≠ [] ∧ env.makeDir = true) ∧
        cfg.exportsFile name = some path ∧
        env.write.left (cfg.exportContent mountpoint) = some left := by
  unfold exportLeft
  rw [Option.ite_none_right_eq_some]
  refine and_congr_right fun _ => ?_
  rw [Option.bind_eq_some_iff]
  constructor
  · rintro ⟨file, hfile, hleft⟩
    obtain ⟨content, hcontent, heq⟩ := Option.map_eq_some_iff.mp hleft
    cases heq
    exact ⟨hfile, hcontent⟩
  · rintro ⟨hfile, hcontent⟩
    exact ⟨path, hfile, Option.map_eq_some_iff.mpr ⟨left, hcontent, rfl⟩⟩

theorem exportLost_eq_some {name path : Text} :
    exportLost cfg env w name = some path ↔
      (cfg.manageKernelExports = true ∧ env.unlink = true) ∧ cfg.exportsFile name = some path ∧
        (w.files.lookup path).isSome := by
  unfold exportLost
  rw [Option.ite_none_right_eq_some]
  refine and_congr_right fun _ => ?_
  rw [Option.filter_eq_some_iff]

theorem writeFile_eq (path content : Text) : ∃ done, writeFile env path content w =
    .ok done (w.leave ((env.write.left content).map fun left => (path, left))) := by
  unfold writeFile
  cases env.write.left content with
  | none => exact ⟨false, rfl⟩
  | some left => exact ⟨_, rfl⟩

theorem nfsExport_eq (name mountpoint : Text) :
    nfsExport cfg env name mountpoint w = .ok () (w.leave (exportLeft cfg env name mountpoint)) := by
  unfold nfsExport exportLeft
  by_cases hmanage : cfg.manageKernelExports = false
  · rw [if_pos hmanage, if_neg fun h => by simp [hmanage] at h]
    rfl
  rw [if_neg hmanage]
  by_cases hclients : cfg.nfsClients = []
  · rw [if_pos hclients, if_neg fun h => h.2.1 hclients]
    rfl
  rw [if_neg hclients]
  cases hfile : cfg.exportsFile name with
  | none =>
    rw [Option.bind_none, ite_self]
    rfl
  | some path =>
    dsimp only
    by_cases hdir : env.makeDir = true
    · rw [if_pos hdir, if_pos ⟨Bool.not_eq_false _ ▸ hmanage, hclients, hdir⟩, Option.bind_some]
      obtain ⟨done, hwrite⟩ : ∃ done,
          writeFile env path (cfg.exportContent mountpoint) w = .ok done _ :=
        writeFile_eq path (cfg.exportContent mountpoint)
      rw [bind_of_ok hwrite]
      cases done with
      | false => rfl
      | true => exact bestEffort_eq rfl
    · rw [if_neg hdir, if_neg fun h => hdir h.2.2]
      rfl

theorem removeFile_eq (path : Text) : removeFile env path w = .ok () (w.lose
    (if env.unlink = true then (some path).filter fun path => (w.files.lookup path).isSome
      else none)) := by
  show EStateM.Result.ok () (if env.unlink = true ∧ (w.files.lookup path).isSome then _ else w) = _
  by_cases hunlink : env.unlink = true
  · rw [if_pos hunlink, Option.filter_some]
    by_cases hfile : (w.files.lookup path).isSome
    · rw [if_pos ⟨hunlink, hfile⟩, if_pos hfile]
      rfl
    · rw [if_neg fun h => hfile h.2, if_neg hfile]
      rfl
  · rw [if_neg fun h => hunlink h.1, if_neg hunlink]
    rfl

theorem nfsUnexport_eq (name : Text) :
    nfsUnexport cfg env name w = .ok () (w.lose (exportLost cfg env w name)) := by
  unfold nfsUnexport exportLost
  by_cases hmanage : cfg.manageKernelExports = false
  · rw [if_pos hmanage, if_neg fun h => by simp [hmanage] at h]
    rfl
  rw [if_neg hmanage]
  cases hfile : cfg.exportsFile name with
  | none =>
    rw [Option.filter_none, ite_self]
    exact bestEffort_eq rfl
  | some path =>
    have hif : (if cfg.manageKernelExports = true ∧ env.unlink = true then
        (some path).filter fun path => (w.files.lookup path).isSome else none) =
        if env.unlink = true then (some path).filter fun path => (w.files.lookup path).isSome
          else none := by
      rw [Bool.not_eq_false] at hmanage
      simp only [hmanage, true_and]
    have hremove : removeFile env path w = .ok () (w.lose _) := removeFile_eq path
    dsimp only
    rw [bind_of_ok hremove, hif]
    exact bestEffort_eq rfl

theorem setPermissions_eq (mountpoint : Text) : setPermissions cfg env mountpoint w = .ok () w := by
  unfold setPermissions
  cases cfg.datasetOwner with
  | none =>
    cases cfg.datasetMode with
    | none => rfl
    | some mode => exact bestEffort_eq rfl
  | some owner =>
    dsimp only
    have howner : bestEffort cfg env (.chown owner mountpoint) w = .ok () w := bestEffort_eq rfl
    rw [bind_of_ok howner]
    cases cfg.datasetMode with
    | none => rfl
    | some mode => exact bestEffort_eq rfl

end Exports

/-! ## Destroying -/

section Destroy

variable (cfg env)

/-- The attempt was turned away as busy. -/
def Busy (name : Text) (attempt : Nat) : Prop :=
  ∃ stderr, env.fault (.zfs (.destroy name)) attempt = some (.exit stderr) ∧ "busy".toList <:+: stderr

/-- The pool has the dataset and nothing elsewhere hangs on it. -/
def Destroyable (p : Zpool) (name : Text) : Prop := (p.find name).isSome ∧ ¬ p.ClonedOut name

/-- Some attempt meets no fault, those before it were turned away as busy, and the pool lets the
dataset go. -/
def Destroys (p : Zpool) (name : Text) (left attempt : Nat) : Prop :=
  Destroyable p name ∧ ∃ k ≤ left, (∀ j < k, Busy env name (attempt + j)) ∧
    env.fault (.zfs (.destroy name)) (attempt + k) = none

variable {cfg env}

theorem destroys_zero {p : Zpool} {name : Text} {attempt : Nat} :
    Destroys env p name 0 attempt ↔
      Destroyable p name ∧ env.fault (.zfs (.destroy name)) attempt = none := by
  refine and_congr_right fun _ => ?_
  constructor
  · rintro ⟨k, hk, -, hfault⟩
    rwa [Nat.le_zero.mp hk] at hfault
  · intro hfault
    exact ⟨0, le_rfl, fun j hj => absurd hj (Nat.not_lt_zero j), hfault⟩

theorem destroys_succ {p : Zpool} {name : Text} {left attempt : Nat} :
    Destroys env p name (left + 1) attempt ↔
      Destroyable p name ∧ env.fault (.zfs (.destroy name)) attempt = none ∨
        Busy env name attempt ∧ Destroys env p name left (attempt + 1) := by
  constructor
  · rintro ⟨hlets, k, hk, hbusy, hfault⟩
    cases k with
    | zero => exact .inl ⟨hlets, hfault⟩
    | succ k =>
      refine .inr ⟨hbusy 0 (Nat.succ_pos k), hlets, k, Nat.le_of_succ_le_succ hk, fun j hj => ?_, ?_⟩
      · rw [Nat.add_right_comm]
        exact hbusy (j + 1) (Nat.succ_lt_succ hj)
      · rwa [Nat.add_right_comm]
  · rintro (⟨hlets, hfault⟩ | ⟨hfirst, hlets, k, hk, hbusy, hfault⟩)
    · exact ⟨hlets, 0, Nat.zero_le _, fun j hj => absurd hj (Nat.not_lt_zero j), hfault⟩
    · refine ⟨hlets, k + 1, Nat.succ_le_succ hk, fun j hj => ?_, ?_⟩
      · cases j with
        | zero => exact hfirst
        | succ j =>
          have hj := hbusy j (Nat.lt_of_succ_lt_succ hj)
          rwa [Nat.add_right_comm] at hj
      · rwa [Nat.add_right_comm] at hfault

theorem destroy_of_destroyable {p : Zpool} {name : Text} (h : Destroyable p name) :
    p.apply cfg env (.zfs (.destroy name)) = .ok (p.without name, []) := by
  obtain ⟨d, hd⟩ := Option.isSome_iff_exists.mp h.1
  simp only [Zpool.apply, Zpool.destroy, hd, if_neg h.2]
  rfl

/-- The pool's own refusals do not speak of a busy dataset. -/
theorem destroy_of_not_destroyable {p : Zpool} {name : Text} (h : ¬ Destroyable p name) :
    ∃ stderr, p.apply cfg env (.zfs (.destroy name)) = .error stderr ∧
      ¬ "busy".toList <:+: stderr := by
  cases hfind : p.find name with
  | none =>
    refine ⟨"dataset does not exist".toList, ?_, by decide +kernel⟩
    simp only [Zpool.apply, Zpool.destroy, hfind]
    rfl
  | some d =>
    have hcloned : p.ClonedOut name := by
      by_contra hnot
      exact h ⟨by rw [hfind]; rfl, hnot⟩
    refine ⟨"filesystem has dependent clones".toList, ?_, by decide +kernel⟩
    simp only [Zpool.apply, Zpool.destroy, hfind, if_pos hcloned]
    rfl

theorem destroyFrom_of_applied {name : Text} {attempt : Nat} (hlets : Destroyable w.pool name)
    (hfault : env.fault (.zfs (.destroy name)) attempt = none) (left : Nat) :
    destroyFrom cfg env name left attempt w = .ok () { w with pool := w.pool.without name } := by
  rw [destroyFrom.eq_def]
  exact bind_of_ok (runner_of_applied hfault (destroy_of_destroyable hlets))

theorem destroyFrom_of_spawn {name : Text} {attempt : Nat} {message : Text}
    (hfault : env.fault (.zfs (.destroy name)) attempt = some (.spawn message)) (left : Nat) :
    Fails (destroyFrom cfg env name left attempt) w w := by
  rw [destroyFrom.eq_def]
  exact fails_bind_iff.mpr (.inl ⟨_, runner_of_spawn hfault⟩)

/-- An attempt that was turned away as busy is followed by another one, if any is left. -/
theorem destroyFrom_of_complaint {name stderr : Text} {attempt : Nat}
    (h : runner cfg env (.zfs (.destroy name)) attempt w = .ok (.error stderr) w) (left : Nat) :
    destroyFrom cfg env name left attempt w =
      if "busy".toList <:+: stderr ∧ 0 < left then
        destroyFrom cfg env name (left - 1) (attempt + 1) w
      else .error (.commandFailed ((ZfsCommand.destroy name).text cfg.toZfsConfig) stderr) w := by
  rw [destroyFrom.eq_def]
  refine (bind_of_ok h).trans ?_
  cases left with
  | zero =>
    rw [if_neg fun h => Nat.lt_irrefl 0 h.2]
    rfl
  | succ left =>
    dsimp only
    by_cases hbusy : "busy".toList <:+: stderr
    · rw [if_pos hbusy, if_pos ⟨hbusy, Nat.succ_pos left⟩]
      rfl
    · rw [if_neg hbusy, if_neg fun h => hbusy h.1]
      rfl

theorem destroyFrom_of_refused {name : Text} {attempt : Nat} {stderr : Text}
    (hrun : runner cfg env (.zfs (.destroy name)) attempt w = .ok (.error stderr) w) {left : Nat}
    (h : left = 0 ∨ ¬ "busy".toList <:+: stderr) :
    Fails (destroyFrom cfg env name left attempt) w w := by
  have hnot : ¬ ("busy".toList <:+: stderr ∧ 0 < left) := by
    rintro ⟨hbusy, hleft⟩
    exact h.elim (Nat.pos_iff_ne_zero.mp hleft) fun hidle => hidle hbusy
  exact ⟨_, (destroyFrom_of_complaint hrun left).trans (if_neg hnot)⟩

theorem destroyFrom_of_busy {name : Text} {attempt : Nat} (h : Busy env name attempt) (left : Nat) :
    destroyFrom cfg env name (left + 1) attempt w = destroyFrom cfg env name left (attempt + 1) w := by
  obtain ⟨stderr, hfault, hbusy⟩ := h
  exact (destroyFrom_of_complaint (runner_of_exit hfault) (left + 1)).trans
    (if_pos ⟨hbusy, Nat.succ_pos left⟩)

/-- An attempt that no other follows. -/
theorem destroyFrom_last {name : Text} {left attempt : Nat} (h : left = 0 ∨ ¬ Busy env name attempt) :
    (Destroyable w.pool name ∧ env.fault (.zfs (.destroy name)) attempt = none →
      destroyFrom cfg env name left attempt w = .ok () { w with pool := w.pool.without name }) ∧
    (¬ (Destroyable w.pool name ∧ env.fault (.zfs (.destroy name)) attempt = none) →
      Fails (destroyFrom cfg env name left attempt) w w) := by
  constructor
  · rintro ⟨hlets, hfault⟩
    exact destroyFrom_of_applied hlets hfault left
  intro hnot
  cases hfault : env.fault (.zfs (.destroy name)) attempt with
  | none =>
    obtain ⟨stderr, hstderr, hidle⟩ : ∃ stderr, w.pool.apply cfg env (.zfs (.destroy name)) =
        .error stderr ∧ _ := destroy_of_not_destroyable fun hlets => hnot ⟨hlets, hfault⟩
    exact destroyFrom_of_refused (runner_of_refused hfault hstderr) (.inr hidle)
  | some fault =>
    cases fault with
    | exit stderr =>
      refine destroyFrom_of_refused (runner_of_exit hfault) (h.imp_right fun hidle hbusy => ?_)
      exact hidle ⟨stderr, hfault, hbusy⟩
    | spawn message => exact destroyFrom_of_spawn hfault left

/-- A destroy that fails leaves the world as it was, however often it was tried. -/
theorem destroyFrom_spec (name : Text) (left attempt : Nat) :
    (Destroys env w.pool name left attempt →
      destroyFrom cfg env name left attempt w = .ok () { w with pool := w.pool.without name }) ∧
    (¬ Destroys env w.pool name left attempt → Fails (destroyFrom cfg env name left attempt) w w) := by
  induction left generalizing attempt with
  | zero =>
    rw [destroys_zero]
    exact destroyFrom_last (.inl rfl)
  | succ left ih =>
    rw [destroys_succ]
    by_cases hbusy : Busy env name attempt
    · -- The world did not change, so the rest is the same question with one attempt less.
      have hfault : env.fault (.zfs (.destroy name)) attempt ≠ none := by
        obtain ⟨stderr, hfault, -⟩ := hbusy
        simp [hfault]
      simpa [hfault, hbusy, Fails, destroyFrom_of_busy hbusy] using ih (attempt + 1)
    · simpa [hbusy] using destroyFrom_last (.inr hbusy)

theorem destroyWithRetry_of_destroys {name : Text}
    (h : Destroys env w.pool name cfg.maxDestroyRetries 0) :
    destroyWithRetry cfg env name w = .ok () { w with pool := w.pool.without name } :=
  (destroyFrom_spec name cfg.maxDestroyRetries 0).1 h

theorem fails_destroyWithRetry_iff {name : Text} : Fails (destroyWithRetry cfg env name) w w' ↔
    w' = w ∧ ¬ Destroys env w.pool name cfg.maxDestroyRetries 0 := by
  refine fails_iff_of ?_ (destroyFrom_spec name cfg.maxDestroyRetries 0).2
  intro h
  exact ⟨(), _, destroyWithRetry_of_destroys h⟩

end Destroy

/-! ## Patching -/

section Patch

variable (cfg env)

def resized (size : Option UInt64) (d : Dataset) : Dataset := { d with quota := size.getD d.quota }

/-- The mountpoint is another than the junction asks for, as far as `set_mountpoint` reads it. -/
def Elsewhere (d : Dataset) (junction : Text) : Prop :=
  trim (d.mountpoint ++ ['\n']) ≠ cfg.srvRoot ++ junction

instance (d : Dataset) (junction : Text) : Decidable (Elsewhere cfg d junction) :=
  inferInstanceAs (Decidable (_ ≠ _))

def moved (junction : Option Text) (d : Dataset) : Dataset :=
  match junction with
  | none => d
  | some j => if Elsewhere cfg d j then { d with mountpoint := cfg.srvRoot ++ j } else d

@[simp] theorem moved_quota (junction : Option Text) (d : Dataset) :
    (moved cfg junction d).quota = d.quota := by
  unfold moved
  split
  · rfl
  · split <;> rfl

theorem moved_mountpoint {j : Text} {d : Dataset} (h : Elsewhere cfg d j) :
    (moved cfg (some j) d).mountpoint = cfg.srvRoot ++ j := by
  unfold moved
  dsimp only
  rw [if_pos h]

/-- The file that the export of a new junction opens and what it leaves in it. -/
def junctionLeft (name : Text) (junction : Option Text) : Option (Text × Text) :=
  junction.bind fun j => exportLeft cfg env name (cfg.srvRoot ++ j)

/-- Nothing keeps the quota from being set. -/
def SizeRuns (name : Text) (size : Option UInt64) : Prop :=
  ∀ bytes ∈ size, env.fault (.setQuota name bytes) 0 = none

/-- Nothing keeps the mountpoint from being read, and set where it has to be. -/
def JunctionRuns (name : Text) (d : Dataset) (junction : Option Text) : Prop :=
  ∀ j ∈ junction, env.fault (.getMountpoint name) 0 = none ∧
    (Elsewhere cfg d j → env.fault (.setMountpoint name (cfg.srvRoot ++ j)) 0 = none)

variable {cfg env} {name : Text} {n : DatasetName} {d : Dataset}

theorem adjust_of_find {p : Zpool} (h : p.find name = some (n, d)) (f : Dataset → Dataset) :
    p.adjust name f = .ok { p with datasets := p.datasets.insert n (f d) } := by
  unfold Zpool.adjust
  rw [h]

section Found

variable (hfind : w.pool.find name = some (n, d))
include hfind

theorem patchSize_of_runs {size : Option UInt64} (h : SizeRuns env name size) :
    patchSize cfg env name size w = .ok () (w.put n (resized size d)) := by
  cases size with
  | none =>
    show EStateM.Result.ok () w = _
    rw [show resized none d = d from rfl, ZfsWorld.put_self hfind]
  | some bytes =>
    have happly : w.pool.apply cfg env (.setQuota name bytes) =
        .ok ((w.put n (resized (some bytes) d)).pool, []) := by
      simp only [Zpool.apply, adjust_of_find hfind]
      rfl
    exact bind_of_ok (runChecked_of_applied (h bytes rfl) happly)

theorem fails_patchSize_iff {size : Option UInt64} :
    Fails (patchSize cfg env name size) w w' ↔ w' = w ∧ ¬ SizeRuns env name size := by
  refine fails_iff_of (fun h => ⟨(), _, patchSize_of_runs hfind h⟩) fun hnot => ?_
  cases size with
  | none => exact absurd (fun bytes h => by cases h) hnot
  | some bytes =>
    refine fails_bind_iff.mpr (.inl (fails_runChecked_iff.mpr ⟨rfl, fun h => hnot ?_⟩))
    rintro _ ⟨⟩
    exact h.1

theorem getMountpoint_of_find : w.pool.apply cfg env (.getMountpoint name) =
    .ok (w.pool, d.mountpoint ++ ['\n']) := by
  simp only [Zpool.apply, hfind]

theorem setMountpoint_of_runs {j : Text} (h : JunctionRuns cfg env name d (some j)) :
    ∃ changed, setMountpoint cfg env name (cfg.srvRoot ++ j) w =
      .ok changed (w.put n (moved cfg (some j) d)) := by
  obtain ⟨hget, hset⟩ := h j rfl
  unfold setMountpoint moved
  rw [bind_of_ok (runChecked_of_applied hget (getMountpoint_of_find hfind))]
  by_cases hmove : Elsewhere cfg d j
  · rw [if_neg hmove]
    dsimp only
    rw [if_pos hmove]
    have happly : w.pool.apply cfg env (.setMountpoint name (cfg.srvRoot ++ j)) =
        .ok ((w.put n { d with mountpoint := cfg.srvRoot ++ j }).pool, []) := by
      simp only [Zpool.apply, adjust_of_find hfind]
      rfl
    exact ⟨true, bind_of_ok (runChecked_of_applied (hset hmove) happly)⟩
  · rw [if_pos (not_ne_iff.mp hmove)]
    dsimp only
    rw [if_neg hmove, ZfsWorld.put_self hfind]
    exact ⟨false, rfl⟩

theorem setMountpoint_of_not_runs {j : Text} (h : ¬ JunctionRuns cfg env name d (some j)) :
    Fails (setMountpoint cfg env name (cfg.srvRoot ++ j)) w w := by
  unfold setMountpoint
  rw [fails_bind_iff]
  by_cases hget : env.fault (.getMountpoint name) 0 = none
  · refine .inr ⟨_, w, runChecked_of_applied hget (getMountpoint_of_find hfind), ?_⟩
    have hmove : Elsewhere cfg d j ∧ env.fault (.setMountpoint name (cfg.srvRoot ++ j)) 0 ≠ none := by
      by_contra hnot
      refine h ?_
      rintro _ ⟨⟩
      exact ⟨hget, fun hmove => by_contra fun hfault => hnot ⟨hmove, hfault⟩⟩
    rw [if_neg hmove.1]
    exact fails_bind_iff.mpr (.inl (fails_runChecked_iff.mpr ⟨rfl, fun hworks => hmove.2 hworks.1⟩))
  · exact .inl (fails_runChecked_iff.mpr ⟨rfl, fun hworks => hget hworks.1⟩)

theorem patchJunction_of_runs {junction : Option Text} (h : JunctionRuns cfg env name d junction) :
    patchJunction cfg env name junction w =
      .ok () ((w.put n (moved cfg junction d)).leave (junctionLeft cfg env name junction)) := by
  cases junction with
  | none =>
    show EStateM.Result.ok () w = .ok () (w.put n d)
    rw [ZfsWorld.put_self hfind]
  | some j =>
    obtain ⟨changed, hset⟩ := setMountpoint_of_runs hfind h
    rw [patchJunction, bind_of_ok hset, bind_of_ok (nfsExport_eq name _), setPermissions_eq]
    rfl

theorem fails_patchJunction_iff {junction : Option Text} :
    Fails (patchJunction cfg env name junction) w w' ↔
      w' = w ∧ ¬ JunctionRuns cfg env name d junction := by
  refine fails_iff_of (fun h => ⟨(), _, patchJunction_of_runs hfind h⟩) fun hnot => ?_
  cases junction with
  | none => exact absurd (fun j h => by cases h) hnot
  | some j => exact fails_bind_iff.mpr (.inl (setMountpoint_of_not_runs hfind hnot))

theorem getVolume_of_runs {u : VolumeUuid} (hreg : w.reg.volByUuid.lookup u = some name)
    (hfault : env.fault (.listDataset name) 0 = none) : ∃ v, getVolume cfg env u w = .ok v w := by
  have hrow : w.pool.apply cfg env (.listDataset name) =
      .ok (w.pool, Zpool.datasetRow cfg env n d) := by
    simp only [Zpool.apply, hfind]
  rw [getVolume, bind_of_ok (volName_of_lookup hreg), bind_of_ok (runner_of_applied hfault hrow)]
  exact ⟨_, rfl⟩

theorem fails_getVolume_iff {u : VolumeUuid} (hreg : w.reg.volByUuid.lookup u = some name) :
    Fails (getVolume cfg env u) w w' ↔ w' = w ∧ ¬ env.fault (.listDataset name) 0 = none := by
  refine fails_iff_of (fun hfault => ?_) fun hfault => ?_
  · obtain ⟨v, hv⟩ : ∃ v, getVolume cfg env u w = .ok v w := getVolume_of_runs hfind hreg hfault
    exact ⟨v, w, hv⟩
  · rw [getVolume, fails_bind_of_ok (volName_of_lookup hreg), fails_bind_iff]
    obtain ⟨fault, hfault⟩ := Option.ne_none_iff_exists'.mp hfault
    cases fault with
    | exit stderr => exact .inr ⟨_, w, runner_of_exit hfault, _, rfl⟩
    | spawn message => exact .inl ⟨_, runner_of_spawn hfault⟩

end Found

section Missing

variable (hfind : w.pool.find name = none)
include hfind

theorem patchSize_of_missing (bytes : UInt64) : Fails (patchSize cfg env name (some bytes)) w w := by
  refine (fails_bind_of_fails (fails_runChecked_iff.mpr ⟨rfl, ?_⟩)).mpr rfl
  rintro ⟨-, r, hr⟩
  simp only [Zpool.apply, Zpool.adjust, hfind] at hr
  cases hr

theorem patchJunction_of_missing (j : Text) : Fails (patchJunction cfg env name (some j)) w w := by
  have hget : Fails (runChecked cfg env (.getMountpoint name)) w w := by
    refine fails_runChecked_iff.mpr ⟨rfl, ?_⟩
    rintro ⟨-, r, hr⟩
    simp only [Zpool.apply, hfind] at hr
    cases hr
  exact (fails_bind_of_fails ((fails_bind_of_fails hget).mpr rfl)).mpr rfl

theorem getVolume_of_missing {u : VolumeUuid} (hreg : w.reg.volByUuid.lookup u = some name) :
    Fails (getVolume cfg env u) w w := by
  rw [getVolume, fails_bind_of_ok (volName_of_lookup hreg)]
  rcases runner_cases cfg env w (.listDataset name) 0 with ⟨message, hrun⟩ | ⟨stderr, hrun⟩ |
    ⟨pool, stdout, happly, -⟩
  · exact (fails_bind_of_fails ⟨_, hrun⟩).mpr rfl
  · rw [fails_bind_of_ok hrun]
    exact ⟨_, rfl⟩
  · simp only [Zpool.apply, hfind] at happly
    cases happly

end Missing

end Patch

end ZfsBackend

end NessieStore
