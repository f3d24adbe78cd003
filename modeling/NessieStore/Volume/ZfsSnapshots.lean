import NessieStore.Lib.Split
import NessieStore.Volume.ZfsTracked

/-!
# The snapshots that the ZFS backend lists

`list_snapshots` asks for the snapshots of a volume with `zfs list -r`, which prints those of the
dataset and of every dataset below it, keeps of each row the part behind the `@`, and finds or makes a
uuid for the volume and that name. A volume name may hold slashes, so a dataset may have others below
it, and their snapshots come out as snapshots of the volume, under the uuid of its own snapshot of
that name if it has one.

Rows are text: `lines_rows` and `splitOn_snapshotColumns` say that what is printed is what is read,
since no name holds a separator. The list of a volume is its own, with uuids that stay and that delete
what they were listed for, exactly if its dataset is in the pool and no dataset below has a snapshot
(`list_own_iff`).
-/

set_option autoImplicit false

namespace NessieStore

open Lib

/-! ## Rows -/

theorem ne_of_isZfsChar {c d : Char} (hc : isZfsChar c = true) (hd : isZfsChar d = false) : c ≠ d := by
  rintro rfl
  rw [hc] at hd
  cases hd

theorem isZfsChar_of_mem_datasetName {n : DatasetName} {c : Char} (h : c ∈ n.val) :
    isZfsChar c = true ∨ c = '/' := by
  have hparts : ['/'].intercalate (n.val.splitOn '/') = n.val := List.intercalate_splitOn '/'
  rw [← hparts] at h
  obtain hslash | ⟨part, hpart, hc⟩ := mem_of_mem_intercalate h
  · exact .inr hslash
  · have hall := List.all_eq_true.mp n.2 part hpart
    exact .inl (List.all_eq_true.mp (Bool.and_eq_true_iff.mp hall).2 c hc)

theorem isZfsChar_of_mem_snapshotName {s : SnapshotName} {c : Char} (h : c ∈ s.val) :
    isZfsChar c = true :=
  List.all_eq_true.mp (Bool.and_eq_true_iff.mp s.2).2 c h

theorem isZfsChar_of_mem_full {cfg : ZfsSettings} {n : DatasetName} {c : Char}
    (h : c ∈ cfg.full n.val) : isZfsChar c = true ∨ c = '/' := by
  rcases List.mem_append.mp h with hpool | hname
  · have hc := List.all_eq_true.mp cfg.named c hpool
    simpa using hc
  · rcases List.mem_cons.mp hname with hslash | hname
    · exact .inr hslash
    · exact isZfsChar_of_mem_datasetName hname

namespace Zpool

variable {cfg : ZfsSettings} {env : ZfsEnv} {p : Zpool}

/-- The text stays on its line and in its column. -/
def IsColumn (text : Text) : Prop := '\n' ∉ text ∧ '\r' ∉ text ∧ '\t' ∉ text

theorem isColumn_of {text : Text} (h : ∀ c ∈ text, isZfsChar c = true ∨ c = '/' ∨ c = '@') :
    IsColumn text := by
  refine ⟨fun hc => ?_, fun hc => ?_, fun hc => ?_⟩
  all_goals
    have hchar := h _ hc
    revert hchar
    decide

theorem isColumn_writeU64 (n : UInt64) : IsColumn (writeU64 n) :=
  ⟨not_mem_writeU64 (by decide), not_mem_writeU64 (by decide), not_mem_writeU64 (by decide)⟩

/-- The columns of a snapshot's row. -/
def snapshotColumns (cfg : ZfsSettings) (env : ZfsEnv) (k : DatasetName × SnapshotName)
    (creation : UInt64) : List Text :=
  [cfg.full k.1.val ++ '@' :: k.2.val, writeU64 creation, writeU64 (env.usage k).1,
    writeU64 (env.usage k).2]

theorem isColumn_of_mem_snapshotColumns {k : DatasetName × SnapshotName} {creation : UInt64}
    {text : Text} (h : text ∈ snapshotColumns cfg env k creation) : IsColumn text := by
  simp only [snapshotColumns, List.mem_cons, List.not_mem_nil, or_false] at h
  rcases h with rfl | rfl | rfl | rfl
  · refine isColumn_of fun c hc => ?_
    rcases List.mem_append.mp hc with hfull | hrest
    · exact (isZfsChar_of_mem_full hfull).imp_right .inl
    · rcases List.mem_cons.mp hrest with hat | hsnap
      · exact .inr (.inr hat)
      · exact .inl (isZfsChar_of_mem_snapshotName hsnap)
  · exact isColumn_writeU64 creation
  · exact isColumn_writeU64 (env.usage k).1
  · exact isColumn_writeU64 (env.usage k).2

/-- What is printed row by row is read line by line. -/
theorem lines_rows {rows : List (List Text)} (h : ∀ columns ∈ rows, ∀ text ∈ columns, IsColumn text) :
    lines (rows.map row).flatten = rows.map ['\t'].intercalate := by
  induction rows with
  | nil => rfl
  | cons columns rows ih =>
    have hclean : ∀ sep : Char, sep ≠ '\t' → (∀ text ∈ columns, sep ∉ text) →
        sep ∉ ['\t'].intercalate columns := by
      intro sep hsep hnone hmem
      obtain htab | ⟨text, htext, hc⟩ := mem_of_mem_intercalate hmem
      · exact hsep htab
      · exact hnone text htext hc
    have hcolumns := h columns List.mem_cons_self
    have hline : '\n' ∉ ['\t'].intercalate columns :=
      hclean '\n' (by decide) fun text htext => (hcolumns text htext).1
    have hcr : '\r' ∉ ['\t'].intercalate columns :=
      hclean '\r' (by decide) fun text htext => (hcolumns text htext).2.1
    rw [List.map_cons, List.flatten_cons, row, List.append_assoc, List.singleton_append,
      lines_append _ _ hline, stripCr_of_not_mem hcr,
      ih fun columns hmem => h columns (List.mem_cons_of_mem _ hmem), List.map_cons]

theorem splitOn_snapshotColumns (k : DatasetName × SnapshotName) (creation : UInt64) :
    (['\t'].intercalate (snapshotColumns cfg env k creation)).splitOn '\t' =
      snapshotColumns cfg env k creation :=
  List.splitOn_intercalate '\t' (fun _ h => (isColumn_of_mem_snapshotColumns h).2.2)
    (List.cons_ne_nil _ _)

/-- The snapshots in and below a dataset, in the order of the rows. -/
def listed (env : ZfsEnv) (p : Zpool) (name : Text) : List (DatasetName × SnapshotName) :=
  env.snapshots.filter fun k => below name k.1.val && (p.snapshots.lookup k).isSome

theorem snapshotRows_eq (name : Text) : p.snapshotRows cfg env name =
    ((listed env p name).map fun k =>
      snapshotColumns cfg env k ((p.snapshots.lookup k).getD 0)).map row := by
  unfold snapshotRows listed
  induction env.snapshots with
  | nil => rfl
  | cons k ks ih =>
    rw [List.filterMap_cons, List.filter_cons]
    by_cases hbelow : below name k.1.val = true
    · cases hlookup : p.snapshots.lookup k with
      | none => simpa [hbelow, hlookup] using ih
      | some creation => simpa [hbelow, hlookup, snapshotRow, snapshotColumns] using ih
    · simpa [hbelow] using ih

theorem mem_listed (hprints : env.Prints p) {name : Text} {k : DatasetName × SnapshotName} :
    k ∈ listed env p name ↔ below name k.1.val = true ∧ (p.snapshots.lookup k).isSome := by
  unfold listed
  rw [List.mem_filter, Bool.and_eq_true_iff, ← List.mem_toFinset, hprints.2.2, Map.mem_keys_iff]
  exact and_iff_right_of_imp And.right

theorem listed_nodup (hprints : env.Prints p) (name : Text) : (listed env p name).Nodup :=
  hprints.2.1.filter _

end Zpool

namespace ZfsBackend

variable {debug : Text → String} {cfg : ZfsSettings} {env : ZfsEnv} {w w' : ZfsWorld}

/-! ## The list of a volume -/

theorem rowName_snapshotColumns (k : DatasetName × SnapshotName) (creation : UInt64) :
    rowName (['\t'].intercalate (Zpool.snapshotColumns cfg env k creation)) = some k.2.val := by
  have hat : '@' ∉ k.2.val := by
    intro hmem
    exact ne_of_isZfsChar (isZfsChar_of_mem_snapshotName hmem) (by decide) rfl
  have hsplit : rsplitOnce ['@'] (cfg.full k.1.val ++ '@' :: k.2.val) =
      some (cfg.full k.1.val, k.2.val) := by
    have happend : rsplitOnce ['@'] (cfg.full k.1.val ++ ['@'] ++ k.2.val) =
        some (cfg.full k.1.val, k.2.val) := rsplitOnce_append List.not_mem_nil hat
    rwa [List.append_assoc] at happend
  unfold rowName
  rw [Zpool.splitOn_snapshotColumns]
  simp only [Zpool.snapshotColumns]
  rw [hsplit]
  rfl

section List

variable {vol : VolumeUuid} {name : Text}

variable (cfg) in
/-- A listing has one record for each snapshot in or below the dataset. -/
theorem listSnapshots_of_found (h : Tracked w) (hreg : w.reg.volByUuid.lookup vol = some name)
    (hfind : (w.pool.find name).isSome) (hfault : env.fault (.listSnapshots name) 0 = none) :
    ∃ snaps w', listSnapshots cfg env vol w = .ok snaps w' ∧ Grown w w' ∧ w'.pool = w.pool ∧
      snaps.map (·.name) = (Zpool.listed env w.pool name).map (·.2.val) ∧
      ∀ r ∈ snaps, w'.reg.snapByUuid.lookup r.uuid = some (vol, r.name) := by
  obtain ⟨found, hfound⟩ := Option.isSome_iff_exists.mp hfind
  have happly : w.pool.apply cfg env (.listSnapshots name) =
      .ok (w.pool, (w.pool.snapshotRows cfg env name).flatten) := by
    simp only [Zpool.apply, hfound]
  have hlines : (lines (w.pool.snapshotRows cfg env name).flatten).filterMap rowName =
      (Zpool.listed env w.pool name).map (·.2.val) := by
    rw [Zpool.snapshotRows_eq, Zpool.lines_rows, List.map_map, List.filterMap_map,
      List.filterMap_eq_map_iff_forall_eq_some]
    · exact fun k _ => rowName_snapshotColumns k _
    · intro columns hcolumns text htext
      obtain ⟨k, -, rfl⟩ := List.mem_map.mp hcolumns
      exact Zpool.isColumn_of_mem_snapshotColumns htext
  obtain ⟨snaps, w', hrun, hgrown, hpool, hnames, hresolve⟩ :=
    readSnapshots_spec vol (lines (w.pool.snapshotRows cfg env name).flatten) h
  refine ⟨snaps, w', ?_, hgrown, hpool, hnames.trans hlines, hresolve⟩
  rw [listSnapshots, bind_of_ok (volName_of_lookup hreg),
    bind_of_ok (runChecked_of_applied hfault happly)]
  exact hrun

theorem listSnapshots_of_missing (hreg : w.reg.volByUuid.lookup vol = some name)
    (hfind : ¬ (w.pool.find name).isSome) : Fails (listSnapshots cfg env vol) w w := by
  have hnot : ¬ Works cfg env w.pool (.listSnapshots name) := by
    rintro ⟨-, r, happly⟩
    simp only [Zpool.apply, Option.not_isSome_iff_eq_none.mp hfind] at happly
    cases happly
  rw [listSnapshots, fails_bind_of_ok (volName_of_lookup hreg),
    fails_bind_of_fails (runChecked_of_not_works hnot)]

end List

/-- One record for each snapshot of the dataset itself and none besides, with distinct uuids. -/
structure ListsOwn (p : Zpool) (name : Text) (snaps : List Snapshot) : Prop where
  own : ∀ s, s ∈ snaps.map (·.name) ↔ (p.findSnapshot name s).isSome
  once : (snaps.map (·.name)).Nodup
  uuids : (snaps.map (·.uuid)).Nodup

/-- Each listing that is made now has the snapshot of the record, under its uuid. -/
def StillListed (cfg : ZfsSettings) (vol : VolumeUuid) (name : Text) (r : Snapshot) (x : ZfsWorld) :
    Prop :=
  ∀ env : ZfsEnv, env.Prints x.pool → env.fault (.listSnapshots name) 0 = none →
    ∃ snaps x', listSnapshots cfg env vol x = .ok snaps x' ∧ r.name ∈ snaps.map (·.name) ∧
      ∀ r' ∈ snaps, r'.name = r.name → r'.uuid = r.uuid

/-- A deletion by the uuid of the record destroys the snapshot `k` and nothing else; it fails, and
destroys nothing, only if the command fails or a clone needs the snapshot. -/
def DeletesJust (cfg : ZfsSettings) (vol : VolumeUuid) (snap : SnapshotUuid)
    (k : DatasetName × SnapshotName) (x : ZfsWorld) : Prop :=
  ∀ env : ZfsEnv,
    (∃ x', deleteSnapshot cfg env vol snap x = .ok () x' ∧
      x'.pool = { x.pool with snapshots := x.pool.snapshots.erase k }) ∨
    Fails (deleteSnapshot cfg env vol snap) x x ∧
      (env.fault (.zfs (.destroySnapshot k.1.val k.2.val)) 0 ≠ none ∨ x.pool.Cloned k)

/-- As long as the snapshot of the record is there, whatever is called meanwhile, the record's uuid is
the one it is listed under and the one that deletes it. -/
def Lasting (debug : Text → String) (cfg : ZfsSettings) (vol : VolumeUuid) (name : Text)
    (r : Snapshot) (w : ZfsWorld) : Prop :=
  ∀ as x k, Run (step debug cfg) (fun y _ => (y.pool.findSnapshot name r.name).isSome) w as x →
    x.pool.findSnapshot name r.name = some k →
      StillListed cfg vol name r x ∧ DeletesJust cfg vol r.uuid k x

section Own

variable {vol : VolumeUuid} {name : Text} {snaps : List Snapshot} {r : Snapshot}

/-- Nothing below the dataset has a snapshot. -/
def Flat (p : Zpool) (name : Text) : Prop :=
  ∀ k ∈ p.snapshots.keys, below name k.1.val = true → k.1.val = name

instance (p : Zpool) (name : Text) : Decidable (Flat p name) :=
  inferInstanceAs (Decidable (∀ k ∈ p.snapshots.keys, below name k.1.val = true → k.1.val = name))

theorem Known.stillListed (hknown : Known w vol name r.uuid r.name) (h : Tracked w)
    (hpresent : (w.pool.findSnapshot name r.name).isSome) : StillListed cfg vol name r w := by
  intro env hprints hfault
  obtain ⟨k, hk⟩ := Option.isSome_iff_exists.mp hpresent
  obtain ⟨hn, hs, hsome⟩ := Zpool.findSnapshot_eq_some.mp hk
  obtain ⟨snaps, w', hrun, hgrown, -, hnames, hresolve⟩ :=
    listSnapshots_of_found cfg h hknown.volume hknown.dataset hfault
  refine ⟨snaps, w', hrun, ?_, fun r' hr' hname => ?_⟩
  · rw [hnames, ← hs]
    refine List.mem_map_of_mem ((Zpool.mem_listed hprints).mpr ⟨?_, hsome⟩)
    rw [hn]
    exact below_self name
  · have hnew := hresolve r' hr'
    rw [hname] at hnew
    exact hgrown.tracked.unique _ _ _ hnew (hgrown.snaps _ _ hknown.snapshot)

theorem Known.deletesJust {k : DatasetName × SnapshotName}
    (hknown : Known w vol name r.uuid r.name) (hk : w.pool.findSnapshot name r.name = some k) :
    DeletesJust cfg vol r.uuid k w := by
  intro env
  obtain ⟨hn, hs, -⟩ := Zpool.findSnapshot_eq_some.mp hk
  rw [hn, hs]
  exact (deleteSnapshot_of_known hknown.volume hknown.snapshot hk).imp_left
    fun hok => ⟨_, hok, rfl⟩

theorem Known.lasting (hknown : Known w vol name r.uuid r.name) (h : Tracked w) :
    Lasting debug cfg vol name r w := by
  intro as x k hrun hk
  have hpresent : (x.pool.findSnapshot name r.name).isSome := Option.isSome_iff_exists.mpr ⟨k, hk⟩
  have hlater := run_known hrun h hknown hpresent
  exact ⟨hlater.stillListed (run_tracked hrun h) hpresent, hlater.deletesJust hk⟩

/-- In a flat dataset the snapshots that are listed are its own, each by its name. -/
theorem listed_flat {p : Zpool} (hprints : env.Prints p) (hflat : Flat p name) :
    ((Zpool.listed env p name).map (·.2.val)).Nodup ∧
      ∀ s, s ∈ (Zpool.listed env p name).map (·.2.val) ↔ (p.findSnapshot name s).isSome := by
  have hown : ∀ k ∈ Zpool.listed env p name, k.1.val = name := by
    intro k hk
    obtain ⟨hbelow, hsome⟩ := (Zpool.mem_listed hprints).mp hk
    exact hflat k (Map.mem_keys_iff.mpr hsome) hbelow
  constructor
  · refine (List.nodup_map_iff_inj_on (Zpool.listed_nodup hprints name)).mpr fun k hk k' hk' hs => ?_
    have hn : k.1.val = k'.1.val := (hown k hk).trans (hown k' hk').symm
    exact Prod.ext (Subtype.ext hn) (Subtype.ext hs)
  · intro s
    rw [Option.isSome_iff_exists]
    constructor
    · intro hs
      obtain ⟨k, hk, rfl⟩ := List.mem_map.mp hs
      exact ⟨k, Zpool.findSnapshot_eq_some.mpr ⟨hown k hk, rfl, ((Zpool.mem_listed hprints).mp hk).2⟩⟩
    · rintro ⟨k, hk⟩
      obtain ⟨hn, rfl, hsome⟩ := Zpool.findSnapshot_eq_some.mp hk
      refine List.mem_map_of_mem ((Zpool.mem_listed hprints).mpr ⟨?_, hsome⟩)
      rw [hn]
      exact below_self name

/-- A list of own snapshots, each once, leaves no room for one below. -/
theorem flat_of_listed {p : Zpool} (hprints : env.Prints p)
    (hnodup : ((Zpool.listed env p name).map (·.2.val)).Nodup)
    (hown : ∀ s ∈ (Zpool.listed env p name).map (·.2.val), (p.findSnapshot name s).isSome) :
    Flat p name := by
  intro k hmem hbelow
  have hk : k ∈ Zpool.listed env p name :=
    (Zpool.mem_listed hprints).mpr ⟨hbelow, Map.mem_keys_iff.mp hmem⟩
  -- The dataset has a snapshot of that name as well, and the name is listed once.
  obtain ⟨k', hk'⟩ := Option.isSome_iff_exists.mp (hown k.2.val (List.mem_map_of_mem hk))
  obtain ⟨hn, hs, hsome⟩ := Zpool.findSnapshot_eq_some.mp hk'
  have hmem' : k' ∈ Zpool.listed env p name := by
    refine (Zpool.mem_listed hprints).mpr ⟨?_, hsome⟩
    rw [hn]
    exact below_self name
  have heq := (List.nodup_map_iff_inj_on (Zpool.listed_nodup hprints name)).mp hnodup k' hmem' k hk hs
  rw [← heq]
  exact hn

end Own

/-- The list of a volume is its own, with uuids that stay and that delete what they were listed for,
exactly if its dataset is in the pool and nothing below it has a snapshot. -/
theorem list_own_iff (debug : Text → String) (cfg : ZfsSettings) {pool : Zpool}
    {files : Map Text Text} {as : List Act} {w : ZfsWorld}
    (hrun : Run (step debug cfg) (fun _ _ => True) (.new pool files) as w) {vol : VolumeUuid}
    {name : Text} (hreg : w.reg.volByUuid.lookup vol = some name) {env : ZfsEnv}
    (hprints : env.Prints w.pool) (hfault : env.fault (.listSnapshots name) 0 = none) :
    (∃ snaps w', listSnapshots cfg env vol w = .ok snaps w' ∧ ListsOwn w.pool name snaps ∧
        ∀ r ∈ snaps, Lasting debug cfg vol name r w') ↔
      (w.pool.find name).isSome ∧ Flat w.pool name := by
  have htracked : Tracked w := run_tracked hrun (.new pool files)
  by_cases hfind : (w.pool.find name).isSome
  · obtain ⟨snaps, w', hlist, hgrown, -, hnames, hresolve⟩ :=
      listSnapshots_of_found cfg htracked hreg hfind hfault
    constructor
    · rintro ⟨snaps', x, hlist', hown, -⟩
      rw [hlist] at hlist'
      cases hlist'
      refine ⟨hfind, flat_of_listed hprints ?_ ?_⟩
      · rw [← hnames]
        exact hown.once
      · rw [← hnames]
        exact fun s => (hown.own s).mp
    · rintro ⟨-, hflat⟩
      obtain ⟨honce, hown⟩ := listed_flat hprints hflat
      rw [← hnames] at honce hown
      refine ⟨snaps, w', hlist, ⟨hown, honce, ?_⟩, fun r hr => ?_⟩
      · -- Records of one uuid have one name.
        refine List.pairwise_map.mpr ((List.pairwise_map.mp honce).imp_of_mem ?_)
        intro r r' hr hr' hne huuid
        have hsame := hresolve r' hr'
        rw [← huuid, hresolve r hr] at hsame
        exact hne (congrArg Prod.snd (Option.some.inj hsame))
      · have hknown : Known w' vol name r.uuid r.name :=
          ⟨hgrown.vols vol name hreg, hresolve r hr, hgrown.pool.find hfind⟩
        exact hknown.lasting hgrown.tracked
  · constructor
    · rintro ⟨snaps, x, hlist, -⟩
      exact absurd (listSnapshots_of_missing hreg hfind) (not_fails_of_ok hlist)
    · exact fun h => absurd h.1 hfind

/-- A volume with a snapshot, and another volume beside it. -/
def flatVolume : List Act :=
  [⟨.createVolume ⟨"a".toList, none⟩, .calm [] []⟩,
    ⟨.createVolume ⟨"b".toList, none⟩, .calm [datasetA] []⟩,
    ⟨.createSnapshot ⟨0⟩ "s".toList, .calm [datasetA, datasetB] []⟩]

theorem list_own_flat :
    ∃ w, run (step (fun _ => "") sampleSettings) (fun _ _ => True) (.new emptyPool ∅) flatVolume =
        some w ∧ (w.pool.findSnapshot "a".toList "s".toList).isSome ∧
      ∃ snaps w', listSnapshots sampleSettings
            (.calm [datasetA, datasetB] [(datasetA, snapshotS)]) ⟨0⟩ w = .ok snaps w' ∧
        ListsOwn w.pool "a".toList snaps ∧
        ∀ r ∈ snaps, Lasting (fun _ => "") sampleSettings ⟨0⟩ "a".toList r w' := by
  obtain ⟨w, hrun, hsnap, hreg, hprints, hfind, hflat⟩ : ∃ w,
      run (step (fun _ => "") sampleSettings) (fun _ _ => True) (.new emptyPool ∅) flatVolume =
        some w ∧ (w.pool.findSnapshot "a".toList "s".toList).isSome ∧
      w.reg.volByUuid.lookup ⟨0⟩ = some "a".toList ∧
      (ZfsEnv.calm [datasetA, datasetB] [(datasetA, snapshotS)]).Prints w.pool ∧
      (w.pool.find "a".toList).isSome ∧ Flat w.pool "a".toList := run_exists (by decide +kernel)
  exact ⟨w, hrun, hsnap, (list_own_iff _ _ (run_sound hrun) hreg hprints rfl).mpr ⟨hfind, hflat⟩⟩

/-! ## A dataset below -/

def datasetAB : DatasetName := ⟨"a/b".toList, by decide⟩

/-- Volumes `a` and `a/b`, each with a snapshot `s`. -/
def nestedVolume : List Act :=
  [⟨.createVolume ⟨"a".toList, none⟩, .calm [] []⟩,
    ⟨.createVolume ⟨"a/b".toList, none⟩, .calm [datasetA] []⟩,
    ⟨.createSnapshot ⟨0⟩ "s".toList, .calm [datasetA, datasetAB] []⟩,
    ⟨.createSnapshot ⟨1⟩ "s".toList, .calm [datasetA, datasetAB] [(datasetA, snapshotS)]⟩]

def nestedRows : ZfsEnv :=
  .calm [datasetA, datasetAB] [(datasetA, snapshotS), (datasetAB, snapshotS)]

/-- `a` has one snapshot and two records of it, with one uuid: the second is that of `a/b`. Once `a`
is deleted `a/b` is still registered, and its list cannot be had. -/
theorem list_not_own :
    ∃ w, run (step (fun _ => "") sampleSettings) (fun _ _ => True) (.new emptyPool ∅) nestedVolume =
        some w ∧ w.reg.volByUuid.lookup ⟨0⟩ = some "a".toList ∧ nestedRows.Prints w.pool ∧
      (∃ snaps w', listSnapshots sampleSettings nestedRows ⟨0⟩ w = .ok snaps w' ∧
        snaps.map (fun r => (r.uuid, r.name)) = [(⟨2⟩, "s".toList), (⟨2⟩, "s".toList)]) ∧
      ∃ x, step (fun _ => "") sampleSettings w ⟨.deleteVolume ⟨0⟩, nestedRows⟩ = some x ∧
        x.reg.volByUuid.lookup ⟨1⟩ = some "a/b".toList ∧
        ∃ x', Fails (listSnapshots sampleSettings (.calm [] []) ⟨1⟩) x x' := by
  obtain ⟨w, hrun, hreg, hprints, hlist, hdelete⟩ : ∃ w,
      run (step (fun _ => "") sampleSettings) (fun _ _ => True) (.new emptyPool ∅) nestedVolume =
        some w ∧ w.reg.volByUuid.lookup ⟨0⟩ = some "a".toList ∧ nestedRows.Prints w.pool ∧
      returnsWith (listSnapshots sampleSettings nestedRows ⟨0⟩) w (fun snaps _ =>
        snaps.map (fun r => (r.uuid, r.name)) = [(⟨2⟩, "s".toList), (⟨2⟩, "s".toList)]) = true ∧
      (step (fun _ => "") sampleSettings w ⟨.deleteVolume ⟨0⟩, nestedRows⟩).any (fun x =>
        decide (x.reg.volByUuid.lookup ⟨1⟩ = some "a/b".toList ∧
          ¬ (x.pool.find "a/b".toList).isSome)) = true := run_exists (by decide +kernel)
  obtain ⟨x, hx, hgone⟩ := (Option.any_eq_true _ _).mp hdelete
  obtain ⟨hstays, hmissing⟩ := of_decide_eq_true hgone
  exact ⟨w, hrun, hreg, hprints, returns_exists hlist, x, hx, hstays, x,
    listSnapshots_of_missing hstays hmissing⟩

end ZfsBackend

end NessieStore
