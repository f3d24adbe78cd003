import NessieStore.Nfs.Table

/-!
# How long a handle lasts

A client keeps the handle of a file for as long as it likes. The server answers for the handle by a
path that it has stored, so the handle is good while one of these paths names the file. `learned`
collects the names that the operations have made, listed and looked up.

The handle outlives every change to the names of the file itself, the renaming of the file included.
It does not outlive the renaming of a directory above the file: the stored paths go on behind the old
name of the directory, `path_of` finds that they name nothing, and the file that is still there has no
handle any more (`handle_lost`). The paths that went through a link are lost with the link.

While directories are renamed only when no stored path goes on behind them, and names are made and
looked up along paths without a link, every file that has a name that the server has seen has its
handle (`handles_last`). Whatever was done, `path_of` does not answer with the path of another file
(`find_of_pathOf`).
-/

set_option autoImplicit false

namespace NessieStore.Nfs

open Lib

/-! ## The condition -/

/-- No path of the table that still names its inode goes on behind `src`. -/
def NothingBehind (src : Path) (s : Shape) (srv : PassthroughFs) : Prop :=
  ∀ id ∈ srv.map.keys, ∀ p ∈ srv.stored id, src <+: p → p ≠ src → s.live id p = false

-- one handle after the other: there are finitely many of them, but too many to try them all
instance (src : Path) (s : Shape) (srv : PassthroughFs) : Decidable (NothingBehind src s srv) :=
  Finset.decidableDforallFinset
    (p := fun id _ => ∀ p ∈ srv.stored id, src <+: p → p ≠ src → s.live id p = false)

/-- If the name is a directory's, the table has nothing behind it. -/
def Settled (dirid : FileId) (name : Bytes) (s : Shape) (srv : PassthroughFs) : Prop :=
  ∀ src ∈ srv.children dirid name, ∀ i ∈ (s.find false src).toOption, s.isDir i = true →
    NothingBehind src s srv

instance (dirid : FileId) (name : Bytes) (s : Shape) (srv : PassthroughFs) :
    Decidable (Settled dirid name s srv) :=
  inferInstanceAs (Decidable (∀ src ∈ srv.children dirid name, ∀ i ∈ (s.find false src).toOption,
    s.isDir i = true → NothingBehind src s srv))

/-- What keeps the handles. -/
def NfsOp.Steady (s : Shape) (srv : PassthroughFs) : NfsOp → Prop
  | .lookup dirid _ => StraightTo true dirid s srv
  | .createExclusive dirid _ => StraightTo true dirid s srv
  | .createExclusiveWithCred dirid _ _ => StraightTo true dirid s srv
  | .mkdir dirid _ => StraightTo true dirid s srv
  | .mkdirWithCred dirid _ _ => StraightTo true dirid s srv
  | .symlink dirid _ _ => StraightTo true dirid s srv
  | .link _ dirid _ => StraightTo true dirid s srv
  | .create dirid name _ => StraightChild dirid name s srv
  | .createWithCred dirid name _ _ => StraightChild dirid name s srv
  | .readdir dirid _ _ => StraightTo false dirid s srv
  | .rename fromDirid fromName toDirid _ =>
    StraightTo true fromDirid s srv ∧ StraightTo true toDirid s srv ∧ Settled fromDirid fromName s srv
  | _ => True

instance (s : Shape) (srv : PassthroughFs) : (op : NfsOp) → Decidable (op.Steady s srv)
  | .lookup dirid _ | .createExclusive dirid _ | .createExclusiveWithCred dirid _ _ | .mkdir dirid _
  | .mkdirWithCred dirid _ _ | .symlink dirid _ _ | .link _ dirid _ =>
    inferInstanceAs (Decidable (StraightTo true dirid s srv))
  | .create dirid name _ | .createWithCred dirid name _ _ =>
    inferInstanceAs (Decidable (StraightChild dirid name s srv))
  | .readdir dirid _ _ => inferInstanceAs (Decidable (StraightTo false dirid s srv))
  | .rename fromDirid fromName _ _ =>
    inferInstanceAs (Decidable (_ ∧ _ ∧ Settled fromDirid fromName s srv))
  | .getattr _ | .setattr _ _ | .read _ _ _ | .write _ _ _ _ | .commit _ | .remove _ _
  | .readlink _ => inferInstanceAs (Decidable True)

/-! ## What the server has seen -/

/-- The paths at which an operation makes, lists or looks up a name, by its answer. -/
def NfsOp.paths (s : Shape) (srv : PassthroughFs) : NfsOp → NfsReply → List Path
  | .lookup dirid name, _ | .create dirid name _, _ | .createWithCred dirid name _ _, _
  | .createExclusive dirid name, _ | .createExclusiveWithCred dirid name _, _ | .mkdir dirid name, _
  | .mkdirWithCred dirid name _, _ | .symlink dirid name _, _ | .link _ dirid name, _
  | .rename _ _ dirid name, _ => (srv.target s dirid name).toList
  | .readdir dirid _ _, .entries entries _ =>
    entries.flatMap fun e => (srv.target s dirid e.name).toList
  | _, _ => []

/-- The names that operations which succeeded have made, listed or looked up. -/
def learned (sha : Bytes → UInt64) (w : World) (a : NfsAct) (known : List (Inode × Name)) :
    List (Inode × Name) :=
  match a.op.exec sha a.kernel w with
  | .ok reply w' => (a.op.paths w.fs.shape w.server reply).flatMap w'.fs.shape.namesAt ++ known
  | .error _ _ => known

/-! ## Rules -/

/-- An assertion about the tree and the server. -/
def On (P : Shape → PassthroughFs → Prop) (w : World) : Prop := P w.fs.shape w.server

/-- `path_of` leaves the assertion true. -/
def Lasting (P : Shape → PassthroughFs → Prop) : Prop :=
  ∀ s srv srv', Trims s srv srv' → P s srv → P s srv'

theorem Stable.lasting {P : Shape → PassthroughFs → Prop} (h : Stable P) : Lasting P :=
  fun s srv srv' htrims => h s srv srv' htrims.root htrims.stored

theorem Lasting.and {P Q : Shape → PassthroughFs → Prop} (hP : Lasting P) (hQ : Lasting Q) :
    Lasting fun s srv => P s srv ∧ Q s srv :=
  fun s srv srv' htrims h => ⟨hP s srv srv' htrims h.1, hQ s srv srv' htrims h.2⟩

/-- The names at `paths` are in the table as well. -/
def Knows (known : List (Inode × Name)) (paths : List Path) (s : Shape) (srv : PassthroughFs) :
    Prop :=
  Table (paths.flatMap s.namesAt ++ known) s srv

theorem Knows.table {known : List (Inode × Name)} {paths : List Path} {s : Shape}
    {srv : PassthroughFs} (h : Knows known paths s srv) : Table known s srv :=
  h.mono (List.subset_append_right _ _)

theorem Table.lasting (known : List (Inode × Name)) : Lasting (Table known) :=
  fun _ _ _ htrims h => h.trims htrims

theorem Knows.lasting (known : List (Inode × Name)) (paths : List Path) :
    Lasting (Knows known paths) :=
  fun _ _ _ htrims h => Table.trims h htrims

theorem Lasting.answer (id : FileId) (p : Option Path) :
    Lasting fun s srv => srv.answer s id = p := by
  intro s srv srv' htrims h
  rw [htrims.answer_eq]
  exact h

theorem Lasting.target (dirid : FileId) (name : Bytes) (p : Option Path) :
    Lasting fun s srv => srv.target s dirid name = p := by
  intro s srv srv' htrims h
  rw [htrims.target_eq]
  exact h

theorem PassthroughFs.mem_keys {srv : PassthroughFs} {id : FileId} {p : Path}
    (h : p ∈ srv.stored id) : id ∈ srv.map.keys := by
  unfold PassthroughFs.stored at h
  rw [Finmap.mem_keys]
  cases hpaths : srv.map.lookup id with
  | none =>
    rw [hpaths] at h
    cases h
  | some paths => exact Finmap.mem_of_lookup_eq_some hpaths

theorem Settled.stable (dirid : FileId) (name : Bytes) : Stable (Settled dirid name) := by
  intro s srv srv' hroot hsub h src hsrc i hi hdir id _ p hp
  exact h src (children_subset hroot hsub hsrc) i hi hdir id
    (PassthroughFs.mem_keys (hsub id p hp)) p (hsub id p hp)

theorem PassthroughFs.mem_children_of_target {srv : PassthroughFs} {s : Shape} {dirid : FileId}
    {name : Bytes} {q : Path} (h : srv.target s dirid name = some q) :
    q ∈ srv.children dirid name := by
  obtain ⟨p, hp, hq⟩ := Option.bind_eq_some_iff.mp h
  exact List.mem_filterMap.mpr ⟨p, (PassthroughFs.answer_spec hp).1, hq⟩

/-- A name in a directory whose path meets no link. -/
theorem Table.good_target {known : List (Inode × Name)} {s : Shape} {srv : PassthroughFs}
    (h : Table known s srv) {dirid : FileId} (hdir : StraightTo true dirid s srv) {name : Bytes}
    {q : Path} (hq : srv.target s dirid name = some q) : Good false q s srv.root := by
  obtain ⟨p, hp, hchild⟩ := Option.bind_eq_some_iff.mp hq
  obtain ⟨hstored, -⟩ := PassthroughFs.answer_spec hp
  have hgood : Good true p s srv.root := ⟨h.below dirid p hstored, hdir p hstored⟩
  cases hpath : childPath srv.root p name with
  | ok q' =>
    rw [hpath] at hchild
    cases hchild
    exact hgood.child hpath
  | error e =>
    rw [hpath] at hchild
    cases hchild

section Rules

variable {P Q R : Shape → PassthroughFs → Prop}

theorem pathOf_on (hP : Lasting P) (id : FileId) :
    Triple (On P) (pathOf id) (fun p => On fun s srv => P s srv ∧ srv.answer s id = some p)
      (On P) := by
  intro w hw
  have hkeep : ∀ w', Pruned id w w' → On P w' := by
    intro w' hpruned
    unfold On
    rw [hpruned.fs]
    exact hP _ _ _ hpruned.trims hw
  have hspec := pathOf_spec id w
  cases hrun : pathOf id w with
  | ok p w' =>
    rw [hrun] at hspec
    obtain ⟨hpruned, hhead⟩ := hspec
    refine ⟨hkeep w' hpruned, ?_⟩
    rw [hpruned.fs, hpruned.trims.answer_eq]
    rw [FileSys.isName_eq] at hhead
    exact hhead
  | error _ w' =>
    rw [hrun] at hspec
    exact hkeep w' hspec.1

theorem child_on (dir : Path) (name : Bytes) :
    Triple (On P) (child dir name)
      (fun q => On fun s srv => P s srv ∧ (childPath srv.root dir name).toOption = some q)
      (On P) := by
  intro w hw
  unfold child
  cases hq : childPath w.server.root dir name with
  | ok q =>
    refine ⟨hw, ?_⟩
    show (childPath w.server.root dir name).toOption = some q
    rw [hq]
    rfl
  | error e => exact hw

/-- From a directory handle and a name to the path that they come to. -/
theorem resolved_on {α : Type} (hP : Lasting P) {dirid : FileId} {name : Bytes}
    {body : Path → Server α} {A : α → World → Prop}
    (hbody : ∀ q, Triple (On fun s srv => P s srv ∧ srv.target s dirid name = some q) (body q) A
      (On R)) (hR : ∀ s srv, P s srv → R s srv) :
    Triple (On P) (pathOf dirid >>= fun dir => child dir name >>= body) A (On R) := by
  refine .bind (.fail (pathOf_on hP dirid) fun w => hR _ _) fun dir => ?_
  refine .bind (.fail (child_on dir name) fun w h => hR _ _ h.1) fun q => ?_
  refine (hbody q).pre ?_
  rintro w ⟨⟨hw, hdir⟩, hq⟩
  exact ⟨hw, Option.bind_eq_some_iff.mpr ⟨dir, hdir, hq⟩⟩

theorem syscall_on {α : Type} {call : Syscall α} {B : α → Shape → PassthroughFs → Prop}
    (h : ∀ fs srv r, P fs.shape srv → call fs = .ok r → B r.value r.fs.shape srv) :
    Triple (On P) (syscall call) (fun a => On (B a)) (On P) := by
  intro w hw
  unfold syscall
  cases hcall : call w.fs with
  | ok r => exact h w.fs w.server r hw hcall
  | error e => exact hw

theorem FileSys.isDir_of_metadata {fs : FileSys} {i : Inode} (h : (fs.metadata i).fileType = .dir) :
    fs.shape.isDir i = true := by
  unfold metadata at h
  unfold Shape.isDir
  split at h
  · next hnode => rw [hnode]
  · cases h
  · cases h

theorem lstat_on (p : Path) :
    Triple (On P) (syscall (Syscall.lstat p))
      (fun m => On fun s srv => P s srv ∧ s.find false p = .ok m.inode ∧
        (m.fileType = .dir → s.isDir m.inode = true))
      (On fun s srv => P s srv ∧ ∀ i, s.find false p ≠ .ok i) := by
  intro w hw
  unfold syscall
  cases hcall : Syscall.lstat p w.fs with
  | ok r =>
    obtain ⟨i, hi, rfl⟩ := Syscall.lstat_ok hcall
    refine ⟨hw, ?_, ?_⟩
    · show w.fs.shape.find false p = .ok (w.fs.metadata i).inode
      rw [FileSys.metadata_inode]
      exact hi
    · show (w.fs.metadata i).fileType = .dir → w.fs.shape.isDir (w.fs.metadata i).inode = true
      rw [FileSys.metadata_inode]
      exact FileSys.isDir_of_metadata
  | error e =>
    refine ⟨hw, fun i hi => ?_⟩
    rw [Syscall.lstat_of_find hi] at hcall
    cases hcall

theorem register_on {p : Path}
    (hok : ∀ s srv i, P s srv → s.find false p = .ok i → Q s (srv.note i.fileid p))
    (hfail : ∀ s srv, P s srv → (∀ i, s.find false p ≠ .ok i) → R s srv) :
    Triple (On P) (register p) (fun _ => On Q) (On R) := by
  refine .bind (.fail (lstat_on p) fun w h => hfail _ _ h.1 h.2) fun m => ?_
  refine .bind (Q := fun _ => On Q) (.modify ?_) fun _ => .pure fun _ h => h
  rintro w ⟨hw, hi, -⟩
  exact hok _ _ m.inode hw hi

/-- The name that a call has bound is registered. -/
theorem register_due (known : List (Inode × Name)) (p : Path) :
    Triple (On (Due known p)) (register p) (fun _ => On (Knows known [p])) (On R) := by
  refine register_on ?_ ?_
  · intro s srv i h hi
    obtain ⟨j, hj⟩ := h.leads
    cases (Shape.find_of_leads hj).symm.trans hi
    rw [Knows, List.flatMap_singleton]
    exact h.note hj
  · intro s srv h hnone
    obtain ⟨j, hj⟩ := h.leads
    exact absurd (Shape.find_of_leads hj) (hnone j)

end Rules

/-! ## Operations that make no name -/

/-- A program that leaves an assertion true, whether it returns or fails. -/
def Still {α : Type} (P : Shape → PassthroughFs → Prop) (x : Server α) : Prop :=
  Triple (On P) x (fun _ => On P) (On P)

/-- A call that leaves the names alone. -/
def Syscall.Quiet {α : Type} (call : Syscall α) : Prop :=
  ∀ fs r, call fs = .ok r → r.fs.shape = fs.shape

namespace Syscall

theorem OnDescriptor.quiet {α : Type} {i : Inode} {call : Syscall α} (h : OnDescriptor i call) :
    Quiet call :=
  fun fs r hr => (h fs r hr).1

theorem lstat_quiet (p : Path) : Quiet (lstat p) := by
  intro fs r hr
  obtain ⟨i, -, rfl⟩ := lstat_ok hr
  rfl

theorem readLink_quiet (p : Path) : Quiet (readLink p) := by
  intro fs r hr
  obtain ⟨i, -, hfs, -⟩ := readLink_ok hr
  rw [hfs]

theorem openFile_quiet (write : Bool) (p : Path) : Quiet (openFile write p) := by
  intro fs r hr
  obtain ⟨i, -, rfl⟩ := openFile_ok hr
  rfl

theorem setAttr_quiet (f : Attr → Attr) (p : Path) : Quiet (setAttr f p) := by
  intro fs r hr
  obtain ⟨i, -, hshape, -⟩ := setAttr_ok hr
  exact hshape

end Syscall

section Still

variable {α β : Type} {P : Shape → PassthroughFs → Prop}

theorem Still.pure (a : α) : Still P (Pure.pure a : Server α) := Triple.pure fun _ h => h

theorem Still.bind {x : Server α} {f : α → Server β} (hx : Still P x) (hf : ∀ a, Still P (f a)) :
    Still P (x >>= f) := Triple.bind hx hf

theorem Still.attempt {x : Server α} (h : Still P x) : Still P (Lib.attempt x) := by
  refine Triple.post (Triple.attempt h) ?_
  intro r w hw
  cases r with
  | ok a => exact hw
  | error e => exact hw

theorem Still.orIo {x : Server α} (h : Still P x) : Still P (Nfs.orIo x) := orIo_triple h

theorem Syscall.Quiet.still {call : Syscall α} (h : Syscall.Quiet call) : Still P (syscall call) := by
  refine syscall_on (B := fun _ => P) ?_
  intro fs srv r hP hr
  rw [h fs r hr]
  exact hP

theorem pathOf_still (hP : Lasting P) (id : FileId) : Still P (pathOf id) :=
  (pathOf_on hP id).post fun _ _ h => h.1

theorem setSome_still {call : α → Path → Syscall Unit} {p : Path}
    (hcall : ∀ a, Syscall.Quiet (call a p)) (value : Option α) : Still P (setSome call value p) := by
  unfold setSome
  cases value with
  | none => exact .pure ()
  | some a => exact .bind (hcall a).still.attempt fun _ => .pure ()

theorem pathSetattr_still (now : Time) (attr : Sattr) (p : Path) :
    Still P (pathSetattr now attr p) := by
  refine .bind (setSome_still (fun _ => Syscall.setAttr_quiet _ p) _) fun _ => ?_
  refine .bind (setSome_still (fun _ => Syscall.setAttr_quiet _ p) _) fun _ => ?_
  refine .bind (setSome_still (fun _ => Syscall.setAttr_quiet _ p) _) fun _ => ?_
  split
  · exact .pure ()
  · refine .bind (Syscall.openFile_quiet true p).still.orIo fun file => ?_
    exact (Syscall.setLen_on file _).quiet.still.orIo

theorem getattr_still (hP : Lasting P) (id : FileId) : Still P (getattr id) := by
  refine .bind (pathOf_still hP id) fun path => ?_
  exact .bind (Syscall.lstat_quiet path).still fun m => .pure _

theorem setattr_still (hP : Lasting P) (now : Time) (id : FileId) (attr : Sattr) :
    Still P (setattr now id attr) := by
  refine .bind (pathOf_still hP id) fun path => ?_
  refine .bind (pathSetattr_still now attr path) fun _ => ?_
  split
  · exact .bind (Syscall.setAttr_quiet _ path).still fun _ => getattr_still hP id
  · exact getattr_still hP id

theorem read_still (hP : Lasting P) (id : FileId) (offset : UInt64) (count : UInt32) :
    Still P (read id offset count) := by
  refine .bind (pathOf_still hP id) fun path => ?_
  refine .bind (Syscall.openFile_quiet false path).still fun file => ?_
  refine .bind (Syscall.fstat_on file).quiet.still fun m => ?_
  refine .bind (Syscall.seek_on file offset).quiet.still fun _ => ?_
  split
  · exact .pure _
  · exact .bind (Syscall.read_on file offset count.toNat).quiet.still fun data => .pure _

theorem writeStable_still (hP : Lasting P) (id : FileId) (offset : UInt64) (data : Bytes)
    (stable : Bool) : Still P (writeStable id offset data stable) := by
  refine .bind (pathOf_still hP id) fun path => ?_
  refine .bind (Syscall.openFile_quiet true path).still fun file => ?_
  refine .bind (Syscall.seek_on file offset).quiet.still fun _ => ?_
  refine .bind (Syscall.writeAll_on file offset data).quiet.still fun _ => ?_
  have hgetattr : Still P (getattr id) := getattr_still hP id
  split
  · refine .bind (Syscall.syncData_on file).quiet.still fun _ => ?_
    exact .bind hgetattr fun attr => .pure _
  · exact .bind hgetattr fun attr => .pure _

theorem commit_still (hP : Lasting P) (id : FileId) : Still P (commit id) := by
  refine .bind (pathOf_still hP id) fun path => ?_
  refine .bind (Syscall.openFile_quiet false path).still fun file => ?_
  exact (Syscall.syncData_on file).quiet.still

theorem readlink_still (hP : Lasting P) (id : FileId) : Still P (readlink id) :=
  .bind (pathOf_still hP id) fun path => (Syscall.readLink_quiet path).still

theorem chownNew_still (hP : Lasting P) (id dirid : FileId) (cred : UnixCred) :
    Still P (chownNew id dirid cred) := by
  refine .bind (pathOf_still hP id).attempt fun path => ?_
  refine .bind (pathOf_still hP dirid).attempt fun parent => ?_
  split
  · next path parent =>
    refine .bind (Syscall.lstat_quiet parent).still.attempt fun m => ?_
    exact .bind (Syscall.setAttr_quiet _ path).still.attempt fun _ => .pure ()
  · exact .pure ()

end Still

/-! ## Operations that make or look up a name -/

section Naming

variable {known : List (Inode × Name)} {target : Option Path} {dirid : FileId} {name : Bytes}

/-- Before an operation on a name in a directory; `target` is the path that they come to. -/
def Naming (known : List (Inode × Name)) (target : Option Path) (dirid : FileId) (name : Bytes)
    (s : Shape) (srv : PassthroughFs) : Prop :=
  Table known s srv ∧ StraightTo true dirid s srv ∧ srv.target s dirid name = target

theorem Naming.lasting (known : List (Inode × Name)) (target : Option Path) (dirid : FileId)
    (name : Bytes) : Lasting (Naming known target dirid name) :=
  (Table.lasting known).and ((StraightTo.stable true dirid).lasting.and (.target dirid name target))

theorem naming_on {α : Type} {P : Shape → PassthroughFs → Prop} (hP : Lasting P)
    {body : Path → Server α} {A : α → World → Prop}
    (hbody : ∀ q, target = some q → Triple (On fun s srv => Table known s srv ∧
      Good false q s srv.root ∧ P s srv ∧ q ∈ srv.children dirid name) (body q) A
      (On (Table known))) :
    Triple (On fun s srv => Naming known target dirid name s srv ∧ P s srv)
      (pathOf dirid >>= fun dir => child dir name >>= body) A (On (Table known)) := by
  refine resolved_on ((Naming.lasting known target dirid name).and hP) (fun q => ?_)
    fun _ _ h => h.1.1
  refine .of_imp (fun htarget => (hbody q htarget).pre ?_) fun w h => h.1.1.2.2.symm.trans h.2
  rintro w ⟨⟨⟨htable, hdir, -⟩, hw⟩, hq⟩
  exact ⟨htable, htable.good_target hdir hq, hw, PassthroughFs.mem_children_of_target hq⟩

/-- Nothing else is assumed. -/
theorem Naming.triv {w : World} (h : On (Naming known target dirid name) w) :
    On (fun s srv => Naming known target dirid name s srv ∧ True) w := ⟨h, trivial⟩

theorem Lasting.triv : Lasting fun _ _ => True := fun _ _ _ _ => id

theorem lookup_learns :
    Triple (On (Naming known target dirid name)) (lookup dirid name)
      (fun _ => On (Knows known target.toList)) (On (Table known)) := by
  refine .pre (naming_on Lasting.triv fun q htarget => ?_) fun w => Naming.triv
  subst htarget
  refine .bind (register_on (Q := Knows known [q]) ?_ fun _ _ h _ => h.1) fun r => .pure fun _ h => h
  rintro s srv i ⟨htable, hgood, -⟩ hi
  rw [Knows, List.flatMap_singleton]
  exact htable.note hgood.below (Shape.leads_of_find hgood.straight hi)

theorem makeNode_learns {node : Node} (hnode : node.Bare) {fresh : Fresh} {call : Path → Syscall Unit}
    (hcall : ∀ p fs r, call p fs = .ok r → ∃ stack n, Syscall.Made node fresh false p fs r stack n) :
    Triple (On (Naming known target dirid name)) (makeNode call dirid name)
      (fun _ => On (Knows known target.toList)) (On (Table known)) := by
  refine .pre (naming_on Lasting.triv fun q htarget => ?_) fun w => Naming.triv
  subst htarget
  refine .bind (.fail (syscall_on (B := fun _ => Due known q) ?_) fun w h => h.1) fun _ =>
    register_due known q
  rintro fs srv r ⟨htable, hgood, -⟩ hr
  obtain ⟨stack, n, hmade⟩ := hcall q fs r hr
  exact htable.made hnode hgood hmade

theorem create_learns (k : Kernel) (attr : Sattr) :
    Triple (On fun s srv => Naming known target dirid name s srv ∧ StraightChild dirid name s srv)
      (create k dirid name attr) (fun _ => On (Knows known target.toList)) (On (Table known)) := by
  refine naming_on (StraightChild.stable dirid name).lasting fun q htarget => ?_
  subst htarget
  refine .bind (.fail (syscall_on (B := fun _ => Due known q) ?_) fun w h => h.1) fun _ => ?_
  · rintro fs srv r ⟨htable, hgood, hchild, hq⟩ hr
    have hstraight := hchild.2 q hq
    rcases Syscall.create_ok hr with ⟨i, hi, rfl⟩ | ⟨stack, n, hmade⟩
    · exact htable.due hgood.below (Shape.leads_of_find hstraight hi)
    · exact htable.made Node.bare_file ⟨hgood.below, hstraight⟩ hmade
  · refine .bind (Triple.attempt (pathSetattr_still k.now attr q)) fun r => ?_
    have hregister : Triple (On (Due known q)) (register q >>= fun r =>
        Pure.pure (r.1, metadataToFattr r.1 r.2)) (fun _ => On (Knows known [q]))
        (On (Table known)) :=
      .bind (register_due known q) fun r => .pure fun _ h => h
    cases r with
    | ok _ => exact hregister
    | error _ => exact hregister

theorem link_learns (id : FileId) :
    Triple (On (Naming known target dirid name)) (link id dirid name)
      (fun _ => On (Knows known target.toList)) (On (Table known)) := by
  refine .bind (.fail (pathOf_still (Naming.lasting known target dirid name) id) fun w h => h.1)
    fun existing => ?_
  refine .pre (naming_on Lasting.triv fun q htarget => ?_) fun w => Naming.triv
  subst htarget
  refine .bind (.fail (syscall_on (B := fun _ => Due known q) ?_) fun w h => h.1) fun _ => ?_
  · rintro fs srv r ⟨htable, hgood, -⟩ hr
    obtain ⟨i, stack, n, hlinked⟩ := Syscall.hardLink_ok hr
    exact htable.linked hgood hlinked
  · exact .bind (register_due known q) fun r => .pure fun _ h => h

/-- What follows the making of a node: it is handed over, and its attributes are read. -/
theorem Knows.handed {paths : List Path} (id : FileId) (cred : UnixCred) :
    Still (Knows known paths) (do
      chownNew id dirid cred
      return (id, ← getattr id)) := by
  refine .bind (chownNew_still (Knows.lasting known paths) id dirid cred) fun _ => ?_
  exact .bind (getattr_still (Knows.lasting known paths) id) fun attr => .pure _

theorem mkdir_learns (k : Kernel) :
    Triple (On (Naming known target dirid name)) (mkdir k dirid name)
      (fun _ => On (Knows known target.toList)) (On (Table known)) :=
  .bind (makeNode_learns Node.bare_dir (mkdir_made k.fresh)) fun _ => .pure fun _ h => h

theorem createExclusive_learns (k : Kernel) :
    Triple (On (Naming known target dirid name)) (createExclusive k dirid name)
      (fun _ => On (Knows known target.toList)) (On (Table known)) :=
  .bind (makeNode_learns Node.bare_file (createNew_made k.fresh)) fun _ => .pure fun _ h => h

theorem symlink_learns (k : Kernel) (linkTarget : Bytes) :
    Triple (On (Naming known target dirid name)) (symlink k dirid name linkTarget)
      (fun _ => On (Knows known target.toList)) (On (Table known)) :=
  .bind (makeNode_learns (Node.bare_symlink linkTarget) fun _ _ _ h => Syscall.symlink_ok h) fun _ =>
    .pure fun _ h => h

theorem createWithCred_learns (k : Kernel) (attr : Sattr) (cred : UnixCred) :
    Triple (On fun s srv => Naming known target dirid name s srv ∧ StraightChild dirid name s srv)
      (createWithCred k dirid name attr cred) (fun _ => On (Knows known target.toList))
      (On (Table known)) :=
  .bind (create_learns k attr) fun r => Triple.fail (Knows.handed r.1 cred) fun _ h => h.table

theorem mkdirWithCred_learns (k : Kernel) (cred : UnixCred) :
    Triple (On (Naming known target dirid name)) (mkdirWithCred k dirid name cred)
      (fun _ => On (Knows known target.toList)) (On (Table known)) :=
  .bind (mkdir_learns k) fun r => Triple.fail (Knows.handed r.1 cred) fun _ h => h.table

theorem createExclusiveWithCred_learns (k : Kernel) (cred : UnixCred) :
    Triple (On (Naming known target dirid name)) (createExclusiveWithCred k dirid name cred)
      (fun _ => On (Knows known target.toList)) (On (Table known)) := by
  refine .bind (createExclusive_learns k) fun id => ?_
  refine .bind (Triple.fail (chownNew_still (Knows.lasting known _) id dirid cred) fun _ h => h.table)
    fun _ => ?_
  exact .pure fun _ h => h

end Naming

/-! ## Names that go and move -/

section Moving

variable {known : List (Inode × Name)}

theorem remove_keeps (dirid : FileId) (name : Bytes) :
    Still (Table known) (remove dirid name) := by
  refine resolved_on (Table.lasting known) (fun path => ?_) fun _ _ h => h
  have hremoved : ∀ (call : Syscall Unit) (id : FileId),
      (∀ fs r, call fs = .ok r → ∃ stack n i, Syscall.Removed path fs r stack n i) →
      Still (Table known) (do
        syscall call
        forgetPath id path) := by
    intro call id hcall
    refine Triple.bind (syscall_on (B := fun _ s srv => Table known s srv ∧
      s.leads s.root path = none) ?_) fun _ => .modify fun w h => Table.forget h.1 h.2 id
    intro fs srv r htable hr
    obtain ⟨stack, n, i, hremoved⟩ := hcall fs r hr
    exact htable.removed hremoved
  refine .pre (P := On (Table known)) ?_ fun w h => h.1
  refine .bind (Syscall.lstat_quiet path).still fun m => ?_
  split
  · exact hremoved _ _ fun _ _ h => Syscall.rmdir_ok h
  · exact hremoved _ _ fun _ _ h => Syscall.unlink_ok h

theorem rename_learns (fromDirid : FileId) (fromName : Bytes) {toDirid : FileId} {toName : Bytes}
    {target : Option Path} :
    Triple (On fun s srv => Naming known target toDirid toName s srv ∧
        StraightTo true fromDirid s srv ∧ Settled fromDirid fromName s srv)
      (rename fromDirid fromName toDirid toName) (fun _ => On (Knows known target.toList))
      (On (Table known)) := by
  have hlasting := (Naming.lasting known target toDirid toName).and
    ((StraightTo.stable true fromDirid).lasting.and (Settled.stable fromDirid fromName).lasting)
  refine .bind (.fail (pathOf_on hlasting fromDirid) fun w h => h.1.1) fun fromDir => ?_
  refine .bind (.fail (pathOf_on (hlasting.and (.answer fromDirid (some fromDir))) toDirid)
    fun w h => h.1.1.1) fun toDir => ?_
  refine .bind (.fail (child_on fromDir fromName) fun w h => h.1.1.1.1) fun src => ?_
  refine .bind (.fail (child_on toDir toName) fun w h => h.1.1.1.1.1) fun dst => ?_
  -- both paths are those that the handles and names come to
  refine .of_imp (p := target = some dst) (fun htarget => ?_) ?_
  · subst htarget
    refine .bind (.fail (syscall_on (B := fun _ => Due known dst) ?_) fun w h => h.1.1.1.1.1.1)
      fun _ => ?_
    · rintro fs srv r
        ⟨⟨⟨⟨⟨⟨htable, hto, hdst⟩, hfrom, hsettled⟩, hfromDir⟩, -⟩, hsrc⟩, -⟩ hr
      have hsource : srv.target fs.shape fromDirid fromName = some src :=
        Option.bind_eq_some_iff.mpr ⟨fromDir, hfromDir, hsrc⟩
      have hgood := htable.good_target hfrom hsource
      have hgood' := htable.good_target hto hdst
      rcases Syscall.rename_ok hr with
        ⟨-, -, i, stack', n', -, hl', rfl⟩ | ⟨stack, n, i, stack', n', old, hmoved⟩
      · have hfind : fs.shape.find false dst = .ok i := by
          unfold Shape.find
          rw [hl']
          rfl
        exact htable.due hgood'.below (Shape.leads_of_find hgood'.straight hfind)
      · refine htable.moved hgood hgood' hmoved ?_
        intro hdir id p hp
        refine hsettled src (PassthroughFs.mem_children_of_target hsource) i ?_ hdir id
          (PassthroughFs.mem_keys hp) p hp
        unfold Shape.find
        rw [hmoved.source]
        rfl
    · refine .bind (Triple.attempt (register_due (R := fun _ _ => False) known dst)) fun r => ?_
      cases r with
      | ok _ => exact .pure fun _ h => h
      | error _ => exact .pure fun _ h => h.elim
  · rintro w ⟨⟨⟨⟨⟨⟨-, -, htarget⟩, -⟩, -⟩, hto⟩, -⟩, hdst⟩
    exact htarget.symm.trans (Option.bind_eq_some_iff.mpr ⟨toDir, hto, hdst⟩)

end Moving

/-! ## Listing a directory -/

section Listing

variable {known : List (Inode × Name)}

/-- What `readdir` is about to list: a name of a directory below the root, and its handle. -/
structure Listed (s : Shape) (root : Path) (id : FileId) (p : Path) : Prop where
  below : root <+: p
  leads : ∃ i, s.leads s.root p = some i ∧ i.fileid = id

/-- `targets` says which path a listed name is registered under. -/
theorem listEntries_learns (s₀ : Shape) (targets : Bytes → List Path) (maxEntries : Nat)
    (l : List (UInt64 × FileId × Path))
    (htargets : ∀ x ∈ l, targets (fileName x.2.2) = [x.2.2]) :
    Triple (On fun s srv => s = s₀ ∧ Table known s srv ∧ ∀ x ∈ l, Listed s srv.root x.2.1 x.2.2)
      (listEntries maxEntries l)
      (fun entries => On fun s srv =>
        s = s₀ ∧ Knows known (entries.flatMap fun e => targets e.name) s srv)
      (On (Table known)) := by
  induction l generalizing maxEntries known with
  | nil =>
    cases maxEntries with
    | zero => exact .pure fun _ h => ⟨h.1, h.2.1⟩
    | succ _ => exact .pure fun _ h => ⟨h.1, h.2.1⟩
  | cons x rest ih =>
    obtain ⟨cookie, id, path⟩ := x
    cases maxEntries with
    | zero => exact .pure fun _ h => ⟨h.1, h.2.1⟩
    | succ maxEntries =>
      have hpath : targets (fileName path) = [path] := htargets _ List.mem_cons_self
      refine .bind (.fail (Syscall.lstat_quiet path).still fun w h => h.2.1) fun m => ?_
      refine .bind (Q := fun _ => On fun s srv => s = s₀ ∧ Table (s₀.namesAt path ++ known) s srv ∧
        ∀ x ∈ rest, Listed s srv.root x.2.1 x.2.2) (.modify ?_) fun _ => ?_
      · rintro w ⟨rfl, htable, hlisted⟩
        obtain ⟨hbelow, i, hi, rfl⟩ := hlisted _ List.mem_cons_self
        refine ⟨rfl, htable.note hbelow hi, fun x hx => ?_⟩
        show Listed w.fs.shape (w.server.note i.fileid path).root x.2.1 x.2.2
        rw [PassthroughFs.note_root]
        exact hlisted x (List.mem_cons_of_mem _ hx)
      · refine .bind (.fail (ih maxEntries fun x hx => htargets x (List.mem_cons_of_mem _ hx)) ?_)
          fun entries => .pure ?_
        · exact fun w h => Table.mono h (List.subset_append_right _ _)
        · rintro w ⟨rfl, hknows⟩
          refine ⟨rfl, Table.mono hknows ?_⟩
          rw [List.flatMap_cons, hpath, List.flatMap_append, List.flatMap_singleton,
            List.append_assoc]
          intro y hy
          simp only [List.mem_append] at hy ⊢
          tauto

theorem childPath_name (root dir : Path) (n : Name) :
    childPath root dir n.bytes = .ok (dir ++ [n]) := by
  obtain ⟨hne, hdot, hdots, -⟩ := n.valid
  unfold childPath
  rw [if_neg (not_or.mpr ⟨hne, hdot⟩), if_neg hdots, dif_pos n.valid]

theorem fileName_concat (dir : Path) (n : Name) : fileName (dir ++ [n]) = n.bytes := by
  unfold fileName
  rw [List.getLast?_concat]
  rfl

theorem readdir_learns (sha : Bytes → UInt64) (dirid startAfter : FileId) (maxEntries : Nat)
    {s₀ : Shape} {targets : Bytes → List Path} :
    Triple (On fun s srv => (s = s₀ ∧ Table known s srv ∧ StraightTo false dirid s srv) ∧
        ∀ name, (srv.target s dirid name).toList = targets name)
      (readdir sha dirid startAfter maxEntries)
      (fun r => On (Knows known (r.1.flatMap fun e => targets e.name))) (On (Table known)) := by
  have hlasting : Lasting fun s srv => (s = s₀ ∧ Table known s srv ∧ StraightTo false dirid s srv) ∧
      ∀ name, (srv.target s dirid name).toList = targets name := by
    refine .and (.and (fun _ _ _ _ h => h)
      ((Table.lasting known).and (StraightTo.stable false dirid).lasting)) ?_
    intro s srv srv' htrims h name
    rw [htrims.target_eq]
    exact h name
  refine .bind (.fail (pathOf_on hlasting dirid) fun w h => h.1.2.1) fun dir => ?_
  -- what is listed is registered under the path of the directory
  refine .of_imp (p := ∀ n : Name, targets n.bytes = [dir ++ [n]]) (fun htargets => ?_) ?_
  · refine .bind (.fail (lstat_on dir) fun w h => h.1.1.1.2.1) fun dmeta => ?_
    split
    · exact .bind (.throw (Q := fun _ _ => False) fun w h => h.1.1.1.2.1) fun _ _ h => h.elim
    · next hdir =>
      refine .bind (.fail (syscall_on (B := fun entries s srv => s = s₀ ∧ Table known s srv ∧
        ∀ m ∈ entries, Listed s srv.root m.2.inode.fileid (dir ++ [m.1])) ?_)
        fun w h => h.1.1.1.2.1) fun entries => ?_
      · rintro fs srv r ⟨⟨⟨⟨hshape, htable, hstraight⟩, -⟩, hanswer⟩, hfind, hplain⟩ hr
        obtain ⟨hstored, -⟩ := PassthroughFs.answer_spec hanswer
        have hbelow := htable.below dirid dir hstored
        -- what is listed is a directory, so that the last name is no link
        have hleads := Shape.leads_of_find (hstraight dir hstored) hfind
        have htrue := Shape.straight_true_of_leads hleads
          (Shape.linkTarget_of_isDir (hplain (not_not.mp hdir)))
        obtain ⟨d, hd, -, rfl⟩ := Syscall.readDir_ok hr
        refine ⟨hshape, htable, ?_⟩
        intro m hm
        obtain ⟨⟨n, i⟩, hi, rfl⟩ := List.mem_map.mp hm
        refine ⟨hbelow.trans (List.prefix_append _ _), i, ?_, ?_⟩
        · exact descend_concat_eq_some.mpr
            ⟨d, Shape.leads_of_find htrue hd, Shape.mem_listing.mp hi⟩
        · rw [FileSys.metadata_inode]
      · refine .bind (.pre (listEntries_learns s₀ targets maxEntries _ ?_) ?_)
          fun _ => .pure fun _ h => h.2
        · intro x hx
          obtain ⟨m, -, hpath, -⟩ := mem_withCookies (List.mem_of_mem_drop hx)
          rw [hpath, fileName_concat, htargets]
        · rintro w ⟨hshape, htable, hlisted⟩
          refine ⟨hshape, htable, fun x hx => ?_⟩
          obtain ⟨m, hm, hpath, hid⟩ := mem_withCookies (List.mem_of_mem_drop hx)
          rw [hpath, hid]
          exact hlisted m hm
  · rintro w ⟨⟨-, htargets⟩, hanswer⟩ n
    rw [← htargets]
    unfold PassthroughFs.target
    rw [hanswer, Option.bind_some, childPath_name]
    rfl

end Listing

/-! ## Runs -/

/-- One operation. If it succeeds, the names that it makes, lists or looks up are in the table. -/
theorem exec_learns {known : List (Inode × Name)} (sha : Bytes → UInt64) (k : Kernel) (op : NfsOp)
    {w : World} (hw : Table known w.fs.shape w.server) (hop : op.Steady w.fs.shape w.server) :
    Triple (· = w) (op.exec sha k)
      (fun reply => On (Knows known (op.paths w.fs.shape w.server reply))) (On (Table known)) := by
  have hlasting := Table.lasting known
  cases op with
  | lookup dirid name => exact .map (lookup_learns.start ⟨hw, hop, rfl⟩)
  | getattr id => exact .map ((getattr_still hlasting id).start hw)
  | setattr id attr => exact .map ((setattr_still hlasting k.now id attr).start hw)
  | read id offset count => exact .map ((read_still hlasting id offset count).start hw)
  | write id offset data stable =>
    exact .map ((writeStable_still hlasting id offset data stable).start hw)
  | commit id => exact .map ((commit_still hlasting id).start hw)
  | create dirid name attr => exact .map ((create_learns k attr).start ⟨⟨hw, hop.1, rfl⟩, hop⟩)
  | createExclusive dirid name => exact .map ((createExclusive_learns k).start ⟨hw, hop, rfl⟩)
  | mkdir dirid name => exact .map ((mkdir_learns k).start ⟨hw, hop, rfl⟩)
  | createWithCred dirid name attr cred =>
    exact .map ((createWithCred_learns k attr cred).start ⟨⟨hw, hop.1, rfl⟩, hop⟩)
  | createExclusiveWithCred dirid name cred =>
    exact .map ((createExclusiveWithCred_learns k cred).start ⟨hw, hop, rfl⟩)
  | mkdirWithCred dirid name cred => exact .map ((mkdirWithCred_learns k cred).start ⟨hw, hop, rfl⟩)
  | remove dirid name => exact .map ((remove_keeps dirid name).start hw)
  | rename fromDirid fromName toDirid toName =>
    exact .map ((rename_learns fromDirid fromName).start ⟨⟨hw, hop.2.1, rfl⟩, hop.1, hop.2.2⟩)
  | readdir dirid startAfter maxEntries =>
    exact .map ((readdir_learns sha dirid startAfter maxEntries).start
      ⟨⟨rfl, hw, hop⟩, fun _ => rfl⟩)
  | symlink dirid name target => exact .map ((symlink_learns k target).start ⟨hw, hop, rfl⟩)
  | readlink id => exact .map ((readlink_still hlasting id).start hw)
  | link id dirid name => exact .map ((link_learns id).start ⟨hw, hop, rfl⟩)

/-- The state of the server, and what it has seen. -/
abbrev Watched := World × List (Inode × Name)

theorem Table.step {sha : Bytes → UInt64} {y y' : Watched} {a : NfsAct}
    (ha : a.op.Steady y.1.fs.shape y.1.server) (hy : Table y.2 y.1.fs.shape y.1.server)
    (hstep : watch (nfsStep sha) (learned sha) y a = some y') :
    Table y'.2 y'.1.fs.shape y'.1.server := by
  obtain ⟨w, known⟩ := y
  obtain ⟨w', known'⟩ := y'
  obtain ⟨hw', rfl⟩ := watch_eq_some.mp hstep
  have hrun := exec_learns sha a.kernel a.op hy ha w rfl
  unfold nfsStep at hw'
  unfold learned
  dsimp only at hrun hw' ⊢
  cases hexec : a.op.exec sha a.kernel w with
  | ok reply w'' =>
    rw [hexec] at hrun hw'
    cases hw'
    exact hrun
  | error e w'' =>
    rw [hexec] at hrun hw'
    cases hw'
    exact hrun

theorem Table.new {fs : FileSys} (htree : fs.shape.WellFormed) {root : List Comp}
    {server : PassthroughFs} (hnew : PassthroughFs.new fs root = .ok server) :
    Table [] fs.shape server := by
  obtain ⟨e, -, hexport⟩ := Export.new htree hnew
  exact ⟨htree, hexport.below, fun _ _ h => absurd h List.not_mem_nil⟩

/-- No two inodes have the same handle. -/
def Shape.DistinctIds (s : Shape) : Prop :=
  ∀ i ∈ s.nodes.keys, ∀ j ∈ s.nodes.keys, i.fileid = j.fileid → i = j

instance (s : Shape) : Decidable s.DistinctIds :=
  inferInstanceAs (Decidable (∀ i ∈ s.nodes.keys, ∀ j ∈ s.nodes.keys, i.fileid = j.fileid → i = j))

theorem pathOf_answer {id : FileId} {w w' : World} {p : Path} (h : pathOf id w = .ok p w') :
    w.server.answer w.fs.shape id = some p := by
  have hspec := pathOf_spec id w
  rw [h] at hspec
  obtain ⟨-, hhead⟩ := hspec
  rw [FileSys.isName_eq] at hhead
  exact hhead

theorem exists_pathOf {id : FileId} {w : World} {p : Path} (hp : p ∈ w.server.stored id)
    (hlive : w.fs.shape.live id p = true) : ∃ q w', pathOf id w = .ok q w' := by
  have hspec := pathOf_spec id w
  cases hrun : pathOf id w with
  | ok q w' => exact ⟨q, w', rfl⟩
  | error e w' =>
    rw [hrun] at hspec
    obtain ⟨-, hnone⟩ := hspec
    rw [FileSys.isName_eq] at hnone
    have hmem := List.mem_filter.mpr ⟨hp, hlive⟩
    rw [hnone] at hmem
    cases hmem

/-- The path that `path_of` answers with names the inode of the handle, and no other. -/
theorem find_of_pathOf {w w' : World} (htree : w.fs.shape.WellFormed) (hids : w.fs.shape.DistinctIds)
    {i : Inode} (hi : i ∈ w.fs.shape.nodes) {p : Path} (h : pathOf i.fileid w = .ok p w') :
    w.fs.shape.find false p = .ok i := by
  obtain ⟨-, hlive⟩ := PassthroughFs.answer_spec (pathOf_answer h)
  obtain ⟨j, hj, hid⟩ := Shape.live_iff.mp hlive
  have hmem := htree.mem_of_find hj
  obtain rfl := hids j (Finmap.mem_keys.mpr hmem) i (Finmap.mem_keys.mpr hi) hid
  exact hj

/-- The name is there, below the root, and it is one of `i`. -/
def Shape.Bound (s : Shape) (root : Path) (x : Inode × Name) (i : Inode) : Prop :=
  s.entry x.1 x.2 = some i ∧ ∃ q, root <+: q ∧ s.leads s.root q = some x.1

/-- In a run of steady operations, every inode that has a name below the root that the server has
made, listed or looked up has its handle: `path_of` answers with a path that names it. It never
answers with the path of another. -/
theorem handles_last (sha : Bytes → UInt64) {fs : FileSys} (htree : fs.shape.WellFormed)
    {root : List Comp} {server : PassthroughFs} (hnew : PassthroughFs.new fs root = .ok server)
    {acts : List NfsAct} {w : World} {known : List (Inode × Name)}
    (hrun : Run (watch (nfsStep sha) (learned sha))
      (fun y a => a.op.Steady y.1.fs.shape y.1.server) (⟨server, fs, []⟩, []) acts (w, known))
    (hids : w.fs.shape.DistinctIds) :
    (∀ x ∈ known, ∀ i, w.fs.shape.Bound w.server.root x i →
      ∃ p w', pathOf i.fileid w = .ok p w' ∧ w.fs.shape.find false p = .ok i) ∧
    ∀ i ∈ w.fs.shape.nodes, ∀ p w', pathOf i.fileid w = .ok p w' →
      w.fs.shape.find false p = .ok i := by
  have htable : Table known w.fs.shape w.server :=
    hrun.keeps (I := fun y => Table y.2 y.1.fs.shape y.1.server)
      (fun ha hy hstep => hy.step ha hstep) (Table.new htree hnew)
  refine ⟨?_, fun i hi p w' h => find_of_pathOf htable.tree hids hi h⟩
  rintro ⟨d, n⟩ hknown i ⟨hentry, q, hroot, hq⟩
  have hstored := htable.names d n hknown q i hq hroot hentry
  have hleads : w.fs.shape.leads w.fs.shape.root (q ++ [n]) = some i :=
    descend_concat_eq_some.mpr ⟨d, hq, hentry⟩
  have hlive := Shape.live_iff.mpr ⟨i, Shape.find_of_leads hleads, rfl⟩
  obtain ⟨p, w', hp⟩ := exists_pathOf hstored hlive
  exact ⟨p, w', hp, find_of_pathOf htable.tree hids (htable.tree.closed d n i hentry) hp⟩

/-- The names `f`, `h` and `x`. -/
def firstName : Name := ⟨[102], by decide⟩

def lastName : Name := ⟨[104], by decide⟩

def renamedName : Name := ⟨[120], by decide⟩

/-- A file is made, gets a second name, is renamed and loses its first name; its directory is renamed
once the table has nothing behind it. -/
def renamings : List NfsAct :=
  [⟨kernelOf 5, .mkdir (Inode.fileid ⟨1, 2⟩) [100]⟩,
    ⟨kernelOf 6, .createExclusive (Inode.fileid ⟨1, 5⟩) [102]⟩,
    ⟨kernelOf 7, .link (Inode.fileid ⟨1, 6⟩) (Inode.fileid ⟨1, 2⟩) [103]⟩,
    ⟨kernelOf 7, .remove (Inode.fileid ⟨1, 5⟩) [102]⟩,
    ⟨kernelOf 7, .rename (Inode.fileid ⟨1, 2⟩) [100] (Inode.fileid ⟨1, 2⟩) [120]⟩,
    ⟨kernelOf 7, .rename (Inode.fileid ⟨1, 2⟩) [103] (Inode.fileid ⟨1, 5⟩) [104]⟩,
    ⟨kernelOf 7, .readdir (Inode.fileid ⟨1, 5⟩) 0 10⟩]

theorem handles_last_renamings :
    ∃ w known, Run (watch (nfsStep fun _ => 0) (learned fun _ => 0))
        (fun y a => a.op.Steady y.1.fs.shape y.1.server) (⟨exported, siblings, []⟩, []) renamings
        (w, known) ∧
      ∃ x ∈ known, w.fs.shape.Bound w.server.root x ⟨1, 6⟩ ∧
        ∃ p w', pathOf (Inode.fileid ⟨1, 6⟩) w = .ok p w' ∧ w.fs.shape.find false p = .ok ⟨1, 6⟩ := by
  obtain ⟨⟨w, known⟩, hw, hids, hknown, hentry, hroot, hleads⟩ :
      ∃ y, run (watch (nfsStep fun _ => 0) (learned fun _ => 0))
          (fun y a => a.op.Steady y.1.fs.shape y.1.server) (⟨exported, siblings, []⟩, []) renamings =
        some y ∧ y.1.fs.shape.DistinctIds ∧ (⟨1, 5⟩, lastName) ∈ y.2 ∧
        y.1.fs.shape.entry ⟨1, 5⟩ lastName = some ⟨1, 6⟩ ∧
        y.1.server.root <+: [exportName, renamedName] ∧
        y.1.fs.shape.leads y.1.fs.shape.root [exportName, renamedName] = some ⟨1, 5⟩ :=
    run_exists (by decide +kernel)
  have hlast := handles_last (fun _ => 0) siblings_wellFormed exported_new (run_sound hw) hids
  have hbound : w.fs.shape.Bound w.server.root (⟨1, 5⟩, lastName) ⟨1, 6⟩ :=
    ⟨hentry, _, hroot, hleads⟩
  exact ⟨w, known, run_sound hw, _, hknown, hbound, hlast.1 _ hknown _ hbound⟩

/-! ## A directory that is renamed -/

/-- A file in a directory, and the directory gets another name. -/
def renamedDirectory : List NfsAct :=
  [⟨kernelOf 5, .mkdir (Inode.fileid ⟨1, 2⟩) [100]⟩,
    ⟨kernelOf 6, .createExclusive (Inode.fileid ⟨1, 5⟩) [102]⟩,
    ⟨kernelOf 7, .rename (Inode.fileid ⟨1, 2⟩) [100] (Inode.fileid ⟨1, 2⟩) [120]⟩]

/-- The file is still there under the name that the server made, and its handle is stale. -/
theorem handle_lost :
    ∃ w known, siblings.shape.WellFormed ∧
      PassthroughFs.new siblings [.name exportName] = .ok exported ∧
      Run (watch (nfsStep fun _ => 0) (learned fun _ => 0)) (fun _ _ => True)
        (⟨exported, siblings, []⟩, []) renamedDirectory (w, known) ∧
      w.fs.shape.DistinctIds ∧
      ∃ x ∈ known, w.fs.shape.Bound w.server.root x ⟨1, 6⟩ ∧
        ∀ p w', pathOf (Inode.fileid ⟨1, 6⟩) w ≠ .ok p w' := by
  obtain ⟨⟨w, known⟩, hw, hids, hknown, hentry, hroot, hleads, hnone⟩ :
      ∃ y, run (watch (nfsStep fun _ => 0) (learned fun _ => 0)) (fun _ _ => True)
          (⟨exported, siblings, []⟩, []) renamedDirectory =
        some y ∧ y.1.fs.shape.DistinctIds ∧ (⟨1, 5⟩, firstName) ∈ y.2 ∧
        y.1.fs.shape.entry ⟨1, 5⟩ firstName = some ⟨1, 6⟩ ∧
        y.1.server.root <+: [exportName, renamedName] ∧
        y.1.fs.shape.leads y.1.fs.shape.root [exportName, renamedName] = some ⟨1, 5⟩ ∧
        y.1.server.answer y.1.fs.shape (Inode.fileid ⟨1, 6⟩) = none :=
    run_exists (by decide +kernel)
  refine ⟨w, known, siblings_wellFormed, exported_new, run_sound hw, hids, _, hknown,
    ⟨hentry, _, hroot, hleads⟩, ?_⟩
  intro p w' h
  cases (pathOf_answer h).symm.trans hnone

end NessieStore.Nfs
