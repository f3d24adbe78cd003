import NessieStore.Lib.Run
import NessieStore.Nfs.Export

/-!
# What an export lets a client reach

The server refuses `/` in a name and clamps `..` at the root, but it hands its paths to a kernel that
follows links, and a client can make one: a lookup through the handle of a link to a directory outside
answers with the handle of a file outside, which can then be read and written
(`export_escaped`).

As long as no operation goes through a link, everything that the server touches lies in the subtree of
the exported root (`export_confined`). `NfsOp.Straight` says what that is for each operation: the
paths that the table has for its handles meet no link, also at the end where the kernel follows one
there, `create` does not name a link, and `remove` does not name the root itself, whose entry is in a
directory outside.
-/

set_option autoImplicit false

namespace NessieStore.Nfs

open Lib

/-! ## The condition -/

/-- The paths of a handle meet no link. -/
def StraightTo (follow : Bool) (id : FileId) (s : Shape) (srv : PassthroughFs) : Prop :=
  ∀ p ∈ srv.stored id, s.straight follow s.root p = true

instance (follow : Bool) (id : FileId) (s : Shape) (srv : PassthroughFs) :
    Decidable (StraightTo follow id s srv) :=
  inferInstanceAs (Decidable (∀ p ∈ srv.stored id, s.straight follow s.root p = true))

/-- The paths that a directory handle and a name can come to. -/
def PassthroughFs.children (srv : PassthroughFs) (dirid : FileId) (name : Bytes) : List Path :=
  (srv.stored dirid).filterMap fun p => (childPath srv.root p name).toOption

/-- `create` opens what is there, so that nothing there may be a link. -/
def StraightChild (dirid : FileId) (name : Bytes) (s : Shape) (srv : PassthroughFs) : Prop :=
  StraightTo true dirid s srv ∧ ∀ q ∈ srv.children dirid name, s.straight true s.root q = true

instance (dirid : FileId) (name : Bytes) (s : Shape) (srv : PassthroughFs) :
    Decidable (StraightChild dirid name s srv) :=
  inferInstanceAs (Decidable (_ ∧ ∀ q ∈ srv.children dirid name, s.straight true s.root q = true))

/-- The operation goes through no link. An operation that hands what it made over to the caller looks
at every path of the new handle, which the table may have from an inode of the same number. -/
def NfsOp.Straight (k : Kernel) (s : Shape) (srv : PassthroughFs) : NfsOp → Prop
  | .getattr id => StraightTo false id s srv
  | .readlink id => StraightTo false id s srv
  | .readdir dirid _ _ => StraightTo false dirid s srv
  | .setattr id _ => StraightTo true id s srv
  | .read id _ _ => StraightTo true id s srv
  | .write id _ _ _ => StraightTo true id s srv
  | .commit id => StraightTo true id s srv
  | .lookup dirid _ => StraightTo true dirid s srv
  | .createExclusive dirid _ => StraightTo true dirid s srv
  | .mkdir dirid _ => StraightTo true dirid s srv
  | .symlink dirid _ _ => StraightTo true dirid s srv
  | .create dirid name _ => StraightChild dirid name s srv
  | .createExclusiveWithCred dirid _ _ =>
    StraightTo true dirid s srv ∧ StraightTo true k.fresh.inode.fileid s srv
  | .mkdirWithCred dirid _ _ =>
    StraightTo true dirid s srv ∧ StraightTo true k.fresh.inode.fileid s srv
  | .createWithCred dirid name _ _ =>
    StraightChild dirid name s srv ∧ StraightTo true k.fresh.inode.fileid s srv ∧
      ∀ q ∈ srv.children dirid name, ∀ i ∈ (s.find true q).toOption, StraightTo true i.fileid s srv
  | .remove dirid name => StraightTo true dirid s srv ∧ srv.root ∉ srv.children dirid name
  | .rename fromDirid _ toDirid _ => StraightTo true fromDirid s srv ∧ StraightTo true toDirid s srv
  | .link id dirid _ => StraightTo false id s srv ∧ StraightTo true dirid s srv

instance (k : Kernel) (s : Shape) (srv : PassthroughFs) : (op : NfsOp) → Decidable (op.Straight k s srv)
  | .getattr id | .readlink id | .readdir id _ _ =>
    inferInstanceAs (Decidable (StraightTo false id s srv))
  | .setattr id _ | .read id _ _ | .write id _ _ _ | .commit id =>
    inferInstanceAs (Decidable (StraightTo true id s srv))
  | .lookup dirid _ | .createExclusive dirid _ | .mkdir dirid _ | .symlink dirid _ _ =>
    inferInstanceAs (Decidable (StraightTo true dirid s srv))
  | .create dirid name _ => inferInstanceAs (Decidable (StraightChild dirid name s srv))
  | .createExclusiveWithCred _ _ _ | .mkdirWithCred _ _ _ => inferInstanceAs (Decidable (_ ∧ _))
  | .createWithCred dirid name _ _ =>
    inferInstanceAs (Decidable (_ ∧ _ ∧ ∀ q ∈ srv.children dirid name,
      ∀ i ∈ (s.find true q).toOption, StraightTo true i.fileid s srv))
  | .remove dirid name => inferInstanceAs (Decidable (_ ∧ srv.root ∉ srv.children dirid name))
  | .rename _ _ _ _ => inferInstanceAs (Decidable (_ ∧ _))
  | .link _ _ _ => inferInstanceAs (Decidable (_ ∧ _))

/-! ## Rules -/

/-- Inside the export, and `A` of the tree and the server. -/
def Holds (e : Inode) (A : Shape → PassthroughFs → Prop) (w : World) : Prop :=
  Export e w ∧ A w.fs.shape w.server

/-- `path_of` drops paths from the table and does nothing else to it. -/
def Stable (A : Shape → PassthroughFs → Prop) : Prop :=
  ∀ s srv srv', srv'.root = srv.root → (∀ id p, p ∈ srv'.stored id → p ∈ srv.stored id) →
    A s srv → A s srv'

theorem Stable.and {A B : Shape → PassthroughFs → Prop} (hA : Stable A) (hB : Stable B) :
    Stable fun s srv => A s srv ∧ B s srv :=
  fun s srv srv' hroot hsub h => ⟨hA s srv srv' hroot hsub h.1, hB s srv srv' hroot hsub h.2⟩

theorem StraightTo.stable (follow : Bool) (id : FileId) : Stable (StraightTo follow id) :=
  fun _ _ _ _ hsub h p hp => h p (hsub id p hp)

theorem StraightTo.mono {follow : Bool} {id : FileId} {s : Shape} {srv : PassthroughFs}
    (h : StraightTo true id s srv) : StraightTo follow id s srv :=
  fun p hp => Shape.straight_mono (h p hp)

/-- An assertion about the tree and the root's path. -/
theorem Stable.of_root (C : Shape → Path → Prop) : Stable fun s srv => C s srv.root := by
  intro s srv srv' hroot _ h
  show C s srv'.root
  rw [hroot]
  exact h

section Rules

variable {e : Inode} {A : Shape → PassthroughFs → Prop} {R : World → Prop}

theorem Export.pruned {id : FileId} {w w' : World} (h : Export e w)
    (hstraight : StraightTo false id w.fs.shape w.server) (hw' : Pruned id w w') : Export e w' := by
  refine ⟨?_, ?_, ?_, ?_⟩
  · rw [hw'.fs]
    exact h.tree
  · rw [hw'.fs, hw'.root]
    exact h.rooted
  · intro id' p hp
    rw [hw'.root]
    exact h.below id' p (hw'.stored_subset hp)
  · rcases hw'.log with hlog | hlog
    · rw [hlog]
      exact h.log
    · rw [hlog]
      refine List.forall_mem_cons.mpr ⟨?_, h.log⟩
      intro i hi
      obtain ⟨p, hp, hlook⟩ := List.mem_filterMap.mp hi
      have hinside := h.inside_of_find ⟨h.below id p hp, hstraight p hp⟩
        (FileSys.look_eq_some.mp hlook)
      dsimp only
      split <;> exact hinside

/-- What is known of every path of a handle is known of the one that `path_of` answers with. -/
theorem pathOf_triple {C : Path → Shape → Path → Prop} {id : FileId} (hA : Stable A)
    (hlook : ∀ s srv, A s srv → StraightTo false id s srv)
    (hC : ∀ s srv p, A s srv → p ∈ srv.stored id → srv.root <+: p → C p s srv.root)
    (hR : ∀ w, Holds e A w → R w) :
    Triple (Holds e A) (pathOf id) (fun p => Holds e fun s srv => A s srv ∧ C p s srv.root) R := by
  rintro w ⟨hw, ha⟩
  have hstep : ∀ w', Pruned id w w' → Export e w' ∧ A w'.fs.shape w'.server := by
    intro w' hw'
    refine ⟨hw.pruned (hlook _ _ ha) hw', ?_⟩
    rw [hw'.fs]
    exact hA _ _ _ hw'.root (fun _ _ => hw'.stored_subset) ha
  have hspec := pathOf_spec id w
  cases hrun : pathOf id w with
  | ok p w' =>
    rw [hrun] at hspec
    obtain ⟨hpruned, hhead⟩ := hspec
    obtain ⟨hw', ha'⟩ := hstep w' hpruned
    have hp : p ∈ w.server.stored id := List.mem_of_mem_filter (List.mem_of_mem_head? hhead)
    refine ⟨hw', ha', ?_⟩
    rw [hpruned.fs, hpruned.root]
    exact hC _ _ p ha hp (hw.below id p hp)
  | error _ w' =>
    rw [hrun] at hspec
    exact hR w' (hstep w' hspec.1)

/-- No name leads above the root. -/
theorem below_child {dir q root : Path} {name : Bytes} (h : root <+: dir)
    (hq : childPath root dir name = .ok q) : root <+: q := by
  unfold childPath at hq
  split at hq
  · cases hq
    exact h
  · split at hq
    · cases hq
      split
      · exact List.prefix_rfl
      · next hne =>
        split
        · exact List.prefix_rfl
        · next hdir =>
          have hsplit := List.dropLast_append_getLast hdir
          rcases List.prefix_concat_iff.mp (hsplit.symm ▸ h) with heq | hbelow
          · exact absurd (heq.trans hsplit).symm hne
          · exact hbelow
    · split at hq
      · cases hq
        exact h.trans (List.prefix_append _ _)
      · cases hq

theorem Good.child {dir q root : Path} {name : Bytes} {s : Shape} (h : Good true dir s root)
    (hq : childPath root dir name = .ok q) : Good false q s root := by
  refine ⟨below_child h.below hq, ?_⟩
  unfold childPath at hq
  split at hq
  · cases hq
    exact h.mono.straight
  · split at hq
    · cases hq
      split
      · next heq =>
        rw [← heq]
        exact h.mono.straight
      · next hne =>
        have hdir : dir ≠ [] := by
          rintro rfl
          exact hne (List.prefix_nil.mp h.below).symm
        rw [if_neg hdir]
        have hstraight := h.straight
        rw [← List.dropLast_append_getLast hdir] at hstraight
        exact Shape.straight_mono
          ((Shape.straight_append (List.cons_ne_nil _ [])).mp hstraight).1
    · split at hq
      · cases hq
        exact Shape.straight_concat h.straight _
      · cases hq

theorem child_triple {C : Path → Shape → Path → Prop} {dir : Path} {name : Bytes}
    (hR : ∀ w, Holds e A w → R w) :
    Triple (Holds e fun s srv => A s srv ∧ Good true dir s srv.root ∧
        ∀ q, childPath srv.root dir name = .ok q → C q s srv.root)
      (child dir name)
      (fun q => Holds e fun s srv => A s srv ∧ Good false q s srv.root ∧ C q s srv.root) R := by
  rintro w ⟨hw, ha, hdir, hC⟩
  unfold child
  cases hq : childPath w.server.root dir name with
  | ok q => exact ⟨hw, ha, hdir.child hq, hC q hq⟩
  | error err => exact hR w ⟨hw, ha⟩

theorem mem_children {srv : PassthroughFs} {dirid : FileId} {name : Bytes} {p q : Path}
    (hp : p ∈ srv.stored dirid) (hq : childPath srv.root p name = .ok q) :
    q ∈ srv.children dirid name :=
  List.mem_filterMap.mpr ⟨p, hp, by rw [hq]; rfl⟩

/-- From a directory handle and a name to a path. -/
theorem resolved_triple {α : Type} {C : Path → Shape → Path → Prop} {dirid : FileId} {name : Bytes}
    {body : Path → Server α} {Q : α → World → Prop} (hA : Stable A)
    (hdir : ∀ s srv, A s srv → StraightTo true dirid s srv)
    (hC : ∀ s srv, A s srv → ∀ q ∈ srv.children dirid name, C q s srv.root)
    (hR : ∀ w, Holds e A w → R w)
    (hbody : ∀ q, Triple
      (Holds e fun s srv => A s srv ∧ Good false q s srv.root ∧ C q s srv.root) (body q) Q R) :
    Triple (Holds e A) (pathOf dirid >>= fun dir => child dir name >>= body) Q R := by
  refine .bind (pathOf_triple (C := fun dir s root => Good true dir s root ∧
    ∀ q, childPath root dir name = .ok q → C q s root) hA (fun s srv h => (hdir s srv h).mono) ?_ hR)
    fun dir => .bind (child_triple hR) hbody
  intro s srv p ha hp hbelow
  exact ⟨⟨hbelow, hdir s srv ha p hp⟩, fun q hq => hC s srv ha q (mem_children hp hq)⟩

/-- A system call that keeps the export and ends in `B`. -/
theorem syscall_triple {α : Type} {call : Syscall α} {B : α → Shape → PassthroughFs → Prop}
    (h : ∀ w r, Export e w → A w.fs.shape w.server → call w.fs = .ok r →
      Keeps e w r ∧ B r.value r.fs.shape w.server)
    (hR : ∀ w, Holds e A w → R w) :
    Triple (Holds e A) (syscall call) (fun a => Holds e (B a)) R := by
  rintro w ⟨hw, ha⟩
  unfold syscall
  cases hcall : call w.fs with
  | error err => exact hR w ⟨hw, ha⟩
  | ok r =>
    obtain ⟨hkeeps, hB⟩ := h w r hw ha hcall
    refine ⟨⟨hkeeps.tree, hkeeps.rooted, hw.below, ?_⟩, hB⟩
    exact List.forall_mem_cons.mpr ⟨hkeeps.confined, hw.log⟩

theorem lstat_triple {p : Path} (hp : ∀ s srv, A s srv → Good false p s srv.root)
    (hR : ∀ w, Holds e A w → R w) :
    Triple (Holds e A) (syscall (Syscall.lstat p))
      (fun m => Holds e fun s srv => A s srv ∧ s.leads s.root p = some m.inode ∧
        (m.fileType = .dir → s.linkTarget m.inode = none)) R := by
  refine syscall_triple ?_ hR
  intro w r hw ha hr
  obtain ⟨i, hi, rfl⟩ := Syscall.lstat_ok hr
  have hgood := hp _ _ ha
  refine ⟨.look hw rfl ?_, ha, ?_, ?_⟩
  · exact List.forall_mem_singleton.mpr (hw.inside_of_find hgood hi)
  · rw [FileSys.metadata_inode]
    exact Shape.leads_of_find hgood.straight hi
  · rw [FileSys.metadata_inode]
    unfold FileSys.metadata Shape.linkTarget
    intro hdir
    split at hdir
    · next hnode => rw [hnode]
    · cases hdir
    · cases hdir

/-- A call on the inode at the end of a path, which is followed if it is a link. -/
theorem setAttr_triple {f : Attr → Attr} {p : Path}
    (hp : ∀ s srv, A s srv → Good true p s srv.root) (hR : ∀ w, Holds e A w → R w) :
    Triple (Holds e A) (syscall (Syscall.setAttr f p)) (fun _ => Holds e A) R := by
  refine syscall_triple (B := fun _ => A) ?_ hR
  intro w r hw ha hr
  obtain ⟨i, hi, hshape, htouched⟩ := Syscall.setAttr_ok hr
  refine ⟨.look hw hshape ?_, hshape ▸ ha⟩
  rw [htouched]
  exact List.forall_mem_singleton.mpr (hw.inside_of_find (hp _ _ ha) hi)

theorem openFile_triple {write : Bool} {p : Path}
    (hp : ∀ s srv, A s srv → Good true p s srv.root) (hR : ∀ w, Holds e A w → R w) :
    Triple (Holds e A) (syscall (Syscall.openFile write p))
      (fun i => Holds e fun s srv => A s srv ∧ s.Inside e i) R := by
  refine syscall_triple ?_ hR
  intro w r hw ha hr
  obtain ⟨i, hi, rfl⟩ := Syscall.openFile_ok hr
  have hinside := hw.inside_of_find (hp _ _ ha) hi
  exact ⟨.look hw rfl (List.forall_mem_singleton.mpr hinside), ha, hinside⟩

theorem descriptor_triple {α : Type} {i : Inode} {call : Syscall α}
    (hcall : Syscall.OnDescriptor i call) (hi : ∀ s srv, A s srv → s.Inside e i)
    (hR : ∀ w, Holds e A w → R w) :
    Triple (Holds e A) (syscall call) (fun _ => Holds e A) R := by
  refine syscall_triple (B := fun _ => A) ?_ hR
  intro w r hw ha hr
  obtain ⟨hshape, htouched⟩ := hcall w.fs r hr
  refine ⟨.look hw hshape ?_, hshape ▸ ha⟩
  intro j hj
  rw [htouched j hj]
  exact hi _ _ ha

theorem notePath_triple {id : FileId} {p : Path} {B : Shape → PassthroughFs → Prop}
    (hp : ∀ s srv, A s srv → srv.root <+: p)
    (hB : ∀ s srv, A s srv → B s (srv.note id p)) :
    Triple (Holds e A) (notePath id p) (fun _ => Holds e B) R := by
  refine .modify ?_
  rintro w ⟨hw, ha⟩
  refine ⟨⟨hw.tree, ?_, ?_, hw.log⟩, hB _ _ ha⟩
  · show w.fs.shape.leads w.fs.shape.root (w.server.note id p).root = some e
    rw [PassthroughFs.note_root]
    exact hw.rooted
  · intro id' q hq
    show (w.server.note id p).root <+: q
    rw [PassthroughFs.note_root]
    rcases PassthroughFs.mem_stored_note.mp hq with hold | ⟨-, rfl⟩
    · exact hw.below id' q hold
    · exact hp _ _ ha

theorem register_triple {p : Path} {B : FileId → Shape → PassthroughFs → Prop}
    (hp : ∀ s srv, A s srv → Good false p s srv.root)
    (hB : ∀ s srv i, A s srv → s.leads s.root p = some i → B i.fileid s (srv.note i.fileid p))
    (hR : ∀ w, Holds e A w → R w) :
    Triple (Holds e A) (register p) (fun r => Holds e (B r.1)) R := by
  refine .bind (lstat_triple hp hR) fun m => ?_
  refine .bind (notePath_triple (B := B m.inode.fileid) (fun s srv h => (hp s srv h.1).below) ?_) ?_
  · intro s srv h
    exact hB s srv m.inode h.1 h.2.1
  · intro _
    exact .pure fun _ => id

end Rules

/-! ## Operations -/

section Operations

variable {e : Inode}

theorem lookup_triple (dirid : FileId) (filename : Bytes) :
    Triple (Holds e (StraightTo true dirid)) (lookup dirid filename) (fun _ => Export e)
      (Export e) := by
  refine resolved_triple (C := fun _ _ _ => True) (StraightTo.stable true dirid) (fun _ _ => id)
    (fun _ _ _ _ _ => trivial) (fun _ => And.left) fun path => ?_
  refine .bind (register_triple (B := fun _ _ _ => True) (fun _ _ h => h.2.1)
    (fun _ _ _ _ _ => trivial) fun _ => And.left) ?_
  rintro ⟨id, m⟩
  exact .pure fun _ => And.left

theorem getattr_triple (id : FileId) :
    Triple (Holds e (StraightTo false id)) (getattr id) (fun _ => Export e) (Export e) := by
  refine .bind (pathOf_triple (C := Good false) (StraightTo.stable false id) (fun _ _ h => h)
    (fun s srv p h hp hbelow => ⟨hbelow, h p hp⟩) fun _ => And.left) fun path => ?_
  refine .bind (lstat_triple (fun _ _ h => h.2) fun _ => And.left) fun m => ?_
  exact .pure fun _ => And.left

theorem readlink_triple (id : FileId) :
    Triple (Holds e (StraightTo false id)) (readlink id) (fun _ => Export e) (Export e) := by
  refine .bind (pathOf_triple (C := Good false) (StraightTo.stable false id) (fun _ _ h => h)
    (fun s srv p h hp hbelow => ⟨hbelow, h p hp⟩) fun _ => And.left) fun path => ?_
  refine .post (syscall_triple (B := fun _ _ _ => True) ?_ fun _ => And.left) fun _ _ => And.left
  intro w r hw ha hr
  obtain ⟨i, hi, hfs, htouched⟩ := Syscall.readLink_ok hr
  refine ⟨.look hw (congrArg FileSys.shape hfs) ?_, trivial⟩
  rw [htouched]
  exact List.forall_mem_singleton.mpr (hw.inside_of_find ha.2 hi)

/-- From a handle to a path whose end may be followed. -/
theorem opened_triple {α : Type} {id : FileId} {body : Path → Server α} {Q : α → World → Prop}
    (hbody : ∀ p, Triple (Holds e fun s srv => StraightTo true id s srv ∧ Good true p s srv.root)
      (body p) Q (Export e)) :
    Triple (Holds e (StraightTo true id)) (pathOf id >>= body) Q (Export e) :=
  .bind (pathOf_triple (C := Good true) (StraightTo.stable true id)
    (fun _ _ h => h.mono) (fun _ _ p h hp hbelow => ⟨hbelow, h p hp⟩) fun _ => And.left) hbody

theorem commit_triple (id : FileId) :
    Triple (Holds e (StraightTo true id)) (commit id) (fun _ => Export e) (Export e) := by
  refine opened_triple fun path => ?_
  refine .bind (openFile_triple (fun _ _ h => h.2) fun _ => And.left) fun file => ?_
  exact .post (descriptor_triple (Syscall.syncData_on file) (fun _ _ h => h.2) fun _ => And.left)
    fun _ _ => And.left

theorem read_triple (id : FileId) (offset : UInt64) (count : UInt32) :
    Triple (Holds e (StraightTo true id)) (read id offset count) (fun _ => Export e) (Export e) := by
  refine opened_triple fun path => ?_
  refine .bind (openFile_triple (fun _ _ h => h.2) fun _ => And.left) fun file => ?_
  refine .bind (descriptor_triple (Syscall.fstat_on file) (fun _ _ h => h.2) fun _ => And.left)
    fun m => ?_
  refine .bind (descriptor_triple (Syscall.seek_on file offset) (fun _ _ h => h.2) fun _ => And.left)
    fun _ => ?_
  split
  · exact .pure fun _ => And.left
  · refine .bind (descriptor_triple (Syscall.read_on file offset count.toNat) (fun _ _ h => h.2)
      fun _ => And.left) fun data => ?_
    exact .pure fun _ => And.left

theorem writeStable_triple (id : FileId) (offset : UInt64) (data : Bytes) (stable : Bool) :
    Triple (Holds e (StraightTo true id)) (writeStable id offset data stable) (fun _ => Export e)
      (Export e) := by
  refine opened_triple fun path => ?_
  refine .bind (openFile_triple (fun _ _ h => h.2) fun _ => And.left) fun file => ?_
  refine .bind (descriptor_triple (Syscall.seek_on file offset) (fun _ _ h => h.2) fun _ => And.left)
    fun _ => ?_
  refine .bind (descriptor_triple (Syscall.writeAll_on file offset data) (fun _ _ h => h.2)
    fun _ => And.left) fun _ => ?_
  have hgetattr : Triple (Holds e fun s srv =>
      (StraightTo true id s srv ∧ Good true path s srv.root) ∧ s.Inside e file)
      (getattr id) (fun _ => Export e) (Export e) :=
    (getattr_triple id).pre fun w h => ⟨h.1, h.2.1.1.mono⟩
  split
  · refine .bind (descriptor_triple (Syscall.syncData_on file) (fun _ _ h => h.2) fun _ => And.left)
      fun _ => ?_
    exact .bind hgetattr fun attr => .pure fun _ h => h
  · exact .bind hgetattr fun attr => .pure fun _ h => h

section Attributes

variable {A : Shape → PassthroughFs → Prop} {R : World → Prop} {p : Path}

theorem setSome_triple {α : Type} {call : α → Path → Syscall Unit} (value : Option α)
    (hcall : ∀ a, Triple (Holds e A) (syscall (call a p)) (fun _ => Holds e A) (Holds e A)) :
    Triple (Holds e A) (setSome call value p) (fun _ => Holds e A) R := by
  unfold setSome
  cases value with
  | none => exact .pure fun _ h => h
  | some a =>
    refine .bind (hcall a).attempt ?_
    intro r
    cases r with
    | ok _ => exact .pure fun _ h => h
    | error _ => exact .pure fun _ h => h

theorem orIo_triple {α : Type} {P : World → Prop} {x : Server α} {Q : α → World → Prop}
    (h : Triple P x Q R) : Triple P (orIo x) Q R := by
  intro w hw
  have hrun := h w hw
  unfold orIo
  cases hx : x w with
  | ok a w' =>
    rw [hx] at hrun
    exact hrun
  | error err w' =>
    rw [hx] at hrun
    exact hrun

theorem pathSetattr_triple (now : Time) (attr : Sattr)
    (hp : ∀ s srv, A s srv → Good true p s srv.root) (hR : ∀ w, Holds e A w → R w) :
    Triple (Holds e A) (pathSetattr now attr p) (fun _ => Holds e A) R := by
  have hset : ∀ f : Attr → Attr,
      Triple (Holds e A) (syscall (Syscall.setAttr f p)) (fun _ => Holds e A) (Holds e A) :=
    fun f => setAttr_triple hp fun _ h => h
  refine .bind (setSome_triple _ fun t => hset _) fun _ => ?_
  refine .bind (setSome_triple _ fun t => hset _) fun _ => ?_
  refine .bind (setSome_triple _ fun mode => hset _) fun _ => ?_
  split
  · exact .pure fun _ h => h
  · next size _ =>
    refine .bind (orIo_triple (openFile_triple hp hR)) fun file => ?_
    refine .post (orIo_triple (descriptor_triple (Syscall.setLen_on file size) (fun _ _ h => h.2)
      fun w h => hR w ⟨h.1, h.2.1⟩)) fun _ _ h => ⟨h.1, h.2.1⟩

end Attributes

theorem setattr_triple (now : Time) (id : FileId) (attr : Sattr) :
    Triple (Holds e (StraightTo true id)) (setattr now id attr) (fun _ => Export e) (Export e) := by
  refine opened_triple fun path => ?_
  refine .bind (pathSetattr_triple now attr (fun _ _ h => h.2) fun _ => And.left) fun _ => ?_
  have hgetattr : Triple (Holds e fun s srv => StraightTo true id s srv ∧ Good true path s srv.root)
      (getattr id) (fun _ => Export e) (Export e) :=
    (getattr_triple id).pre fun w h => ⟨h.1, h.2.1.mono⟩
  split
  · exact .bind (setAttr_triple (fun _ _ h => h.2) fun _ => And.left) fun _ => hgetattr
  · exact hgetattr

/-! ### Making and handing over -/

/-- The paths of all these handles meet no link. -/
def StraightAll (ids : Set FileId) (s : Shape) (srv : PassthroughFs) : Prop :=
  ∀ id ∈ ids, StraightTo true id s srv

theorem StraightAll.stable (ids : Set FileId) : Stable (StraightAll ids) :=
  fun s srv srv' hroot hsub h id hid => StraightTo.stable true id s srv srv' hroot hsub (h id hid)

theorem StraightAll.note {ids : Set FileId} {s : Shape} {srv : PassthroughFs}
    (h : StraightAll ids s srv) {p : Path} (hp : s.straight true s.root p = true) (id : FileId) :
    StraightAll ids s (srv.note id p) := by
  intro id' hid' q hq
  rcases PassthroughFs.mem_stored_note.mp hq with hold | ⟨-, rfl⟩
  · exact h id' hid' q hold
  · exact hp

/-- A new file or directory puts no link in the way. -/
theorem StraightAll.made {ids : Set FileId} {w : World} {node : Node} {fresh : Fresh} {follow : Bool}
    {p : Path} {r : Done Unit} {stack : Stack} {n : Name}
    (h : StraightAll ids w.fs.shape w.server) (hw : Export e w)
    (hmade : Syscall.Made node fresh follow p w.fs r stack n) (hnode : node.Bare)
    (hplain : ∀ target, node ≠ .symlink target) : StraightAll ids r.fs.shape w.server := by
  obtain ⟨-, hdir, -⟩ := Shape.locate_landed hmade.located
  intro id hid q hq
  rw [(hmade.edit hnode).root_eq, hmade.shape]
  exact Shape.straight_add hdir hmade.unused hw.tree hnode n hplain (h id hid q hq)

theorem chownNew_triple {ids : Set FileId} {id dirid : FileId} (hid : id ∈ ids) (hdirid : dirid ∈ ids)
    (cred : UnixCred) {R : World → Prop} :
    Triple (Holds e (StraightAll ids)) (chownNew id dirid cred) (fun _ => Holds e (StraightAll ids))
      R := by
  have hpath : ∀ {A : Shape → PassthroughFs → Prop} (id), id ∈ ids → Stable A →
      (∀ s srv, A s srv → StraightAll ids s srv) → Triple (Holds e A) (attempt (pathOf id))
        (Outcome (fun p => Holds e fun s srv => A s srv ∧ Good true p s srv.root) (Holds e A)) R := by
    intro A id hid hA hall
    refine (pathOf_triple (C := Good true) hA (fun s srv h => (hall s srv h id hid).mono) ?_
      fun _ h => h).attempt
    intro s srv p h hp hbelow
    exact ⟨hbelow, hall s srv h id hid p hp⟩
  refine .bind (hpath id hid (StraightAll.stable ids) fun _ _ h => h) ?_
  intro path
  cases path with
  | error _ =>
    refine .bind (hpath dirid hdirid (StraightAll.stable ids) fun _ _ h => h) ?_
    intro parent
    cases parent with
    | error _ => exact .pure fun _ h => h
    | ok parent => exact .pure fun _ h => ⟨h.1, h.2.1⟩
  | ok path =>
    refine .bind (hpath dirid hdirid ((StraightAll.stable ids).and (Stable.of_root (Good true path)))
      fun _ _ h => h.1) ?_
    intro parent
    cases parent with
    | error _ => exact .pure fun _ h => ⟨h.1, h.2.1⟩
    | ok parent =>
      -- neither outcome of the two calls is lost on the way
      have hparent := lstat_triple (e := e) (p := parent) (A := fun s srv =>
        (StraightAll ids s srv ∧ Good true path s srv.root) ∧ Good true parent s srv.root)
        (fun _ _ h => h.2.mono) fun _ h => h
      have hchown : ∀ gid, Triple (Holds e fun s srv =>
          (StraightAll ids s srv ∧ Good true path s srv.root) ∧ Good true parent s srv.root)
          (do let _ ← attempt (syscall (Syscall.chown (some cred.uid) gid path)))
          (fun _ => Holds e (StraightAll ids)) R := by
        intro gid
        refine .bind (setAttr_triple (fun _ _ h => h.1.2) fun _ h => h).attempt ?_
        intro r
        cases r with
        | ok _ => exact .pure fun _ h => ⟨h.1, h.2.1.1⟩
        | error _ => exact .pure fun _ h => ⟨h.1, h.2.1.1⟩
      refine .bind hparent.attempt ?_
      intro m
      cases m with
      | ok m => exact (hchown _).pre fun w h => ⟨h.1, h.2.1⟩
      | error _ => exact hchown _

/-- The handle that `create` can answer with: of what it found, or of what it made. -/
def Answers (ids : Set FileId) (k : Kernel) (dirid : FileId) (name : Bytes) (s : Shape)
    (srv : PassthroughFs) : Prop :=
  k.fresh.inode.fileid ∈ ids ∧
    ∀ q ∈ srv.children dirid name, ∀ i ∈ (s.find true q).toOption, i.fileid ∈ ids

theorem children_subset {srv srv' : PassthroughFs} (hroot : srv'.root = srv.root)
    (hsub : ∀ id p, p ∈ srv'.stored id → p ∈ srv.stored id) {dirid : FileId} {name : Bytes} {q : Path}
    (hq : q ∈ srv'.children dirid name) : q ∈ srv.children dirid name := by
  obtain ⟨p, hp, hchild⟩ := List.mem_filterMap.mp hq
  rw [hroot] at hchild
  exact List.mem_filterMap.mpr ⟨p, hsub dirid p hp, hchild⟩

theorem StraightChild.stable (dirid : FileId) (name : Bytes) : Stable (StraightChild dirid name) :=
  fun s srv srv' hroot hsub h =>
    ⟨StraightTo.stable true dirid s srv srv' hroot hsub h.1,
      fun q hq => h.2 q (children_subset hroot hsub hq)⟩

theorem Answers.stable (ids : Set FileId) (k : Kernel) (dirid : FileId) (name : Bytes) :
    Stable (Answers ids k dirid name) :=
  fun _ _ _ hroot hsub h => ⟨h.1, fun q hq => h.2 q (children_subset hroot hsub hq)⟩

/-- `create` keeps the handles of `ids` straight; if `N`, it answers with one of them. -/
theorem create_triple (ids : Set FileId) (N : Prop) (k : Kernel) (dirid : FileId) (filename : Bytes)
    (attr : Sattr) :
    Triple (Holds e fun s srv => (StraightChild dirid filename s srv ∧ StraightAll ids s srv) ∧
        (N → Answers ids k dirid filename s srv))
      (create k dirid filename attr)
      (fun r => Holds e fun s srv => StraightAll ids s srv ∧ (N → r.1 ∈ ids)) (Export e) := by
  have hstable : Stable fun s srv => (StraightChild dirid filename s srv ∧ StraightAll ids s srv) ∧
      (N → Answers ids k dirid filename s srv) := by
    refine ((StraightChild.stable dirid filename).and (StraightAll.stable ids)).and ?_
    exact fun s srv srv' hroot hsub h hN =>
      Answers.stable ids k dirid filename s srv srv' hroot hsub (h hN)
  refine resolved_triple (C := fun q s _ => s.straight true s.root q = true ∧
    (N → k.fresh.inode.fileid ∈ ids ∧ ∀ i ∈ (s.find true q).toOption, i.fileid ∈ ids)) hstable
    (fun _ _ h => h.1.1.1) ?_ (fun _ => And.left) fun path => ?_
  · intro s srv h q hq
    exact ⟨h.1.1.2 q hq, fun hN => ⟨(h.2 hN).1, (h.2 hN).2 q hq⟩⟩
  -- the path leads to a file, found or made
  refine .bind (syscall_triple (B := fun _ s srv => (StraightAll ids s srv ∧ Good true path s srv.root) ∧
    (N → ∀ i, s.leads s.root path = some i → i.fileid ∈ ids)) ?_ fun _ => And.left) fun _ => ?_
  · rintro w r hw ⟨⟨⟨-, hall⟩, -⟩, hgood, hstraight, hanswers⟩ hr
    have htrue : Good true path w.fs.shape w.server.root := ⟨hgood.below, hstraight⟩
    rcases Syscall.create_ok hr with ⟨i, hi, rfl⟩ | ⟨stack, n, hmade⟩
    · refine ⟨.look hw rfl ?_, ⟨hall, htrue⟩, ?_⟩
      · exact List.forall_mem_singleton.mpr (hw.inside_of_find htrue hi)
      · intro hN j hj
        cases (Shape.leads_of_find hstraight hi).symm.trans hj
        refine (hanswers hN).2 i ?_
        rw [hi]
        rfl
    · obtain ⟨hkeeps, hfits⟩ := hmade.keeps trivial hw htrue
      refine ⟨hkeeps, ⟨hall.made hw hmade trivial (by rintro target ⟨⟩), hfits.plain (by rintro target ⟨⟩)⟩,
        ?_⟩
      intro hN j hj
      cases hfits.leads.symm.trans hj
      exact (hanswers hN).1
  have hset := pathSetattr_triple (e := e) (p := path) (A := fun s srv =>
    (StraightAll ids s srv ∧ Good true path s srv.root) ∧
      (N → ∀ i, s.leads s.root path = some i → i.fileid ∈ ids)) k.now attr (fun _ _ h => h.1.2)
    fun _ h => h
  have hregister : Triple (Holds e fun s srv => (StraightAll ids s srv ∧ Good true path s srv.root) ∧
      (N → ∀ i, s.leads s.root path = some i → i.fileid ∈ ids)) (register path)
      (fun r => Holds e fun s srv => StraightAll ids s srv ∧ (N → r.1 ∈ ids)) (Export e) := by
    refine register_triple (B := fun id s srv => StraightAll ids s srv ∧ (N → id ∈ ids))
      (fun _ _ h => h.1.2.mono) ?_ fun _ => And.left
    intro s srv i h hi
    exact ⟨h.1.1.note h.1.2.straight i.fileid, fun hN => h.2 hN i hi⟩
  refine .bind hset.attempt ?_
  intro r
  cases r with
  | ok _ => exact .bind hregister fun r => .pure fun _ h => h
  | error _ => exact .bind hregister fun r => .pure fun _ h => h

/-- Making a node that was not there. If it is not a link (`N`), the handles of `ids` stay straight.
-/
theorem makeNode_triple (ids : Set FileId) (N : Prop) {node : Node} (hnode : node.Bare)
    (hplain : N → ∀ target, node ≠ .symlink target) {fresh : Fresh} {call : Path → Syscall Unit}
    (hcall : ∀ p fs r, call p fs = .ok r → ∃ stack n, Syscall.Made node fresh false p fs r stack n)
    (dirid : FileId) (name : Bytes) :
    Triple (Holds e fun s srv => StraightTo true dirid s srv ∧ (N → StraightAll ids s srv))
      (makeNode call dirid name)
      (fun r => Holds e fun s srv => N → StraightAll ids s srv ∧ r.1 = fresh.inode.fileid)
      (Export e) := by
  have hstable : Stable fun s srv => StraightTo true dirid s srv ∧ (N → StraightAll ids s srv) := by
    refine (StraightTo.stable true dirid).and ?_
    exact fun s srv srv' hroot hsub h hN => StraightAll.stable ids s srv srv' hroot hsub (h hN)
  refine resolved_triple (C := fun _ _ _ => True) hstable (fun _ _ h => h.1) (fun _ _ _ _ _ => trivial)
    (fun _ => And.left) fun path => ?_
  refine .bind (syscall_triple (B := fun _ s srv => Fits node fresh.inode path s srv.root ∧
    (N → StraightAll ids s srv)) ?_ fun _ => And.left) fun _ => ?_
  · rintro w r hw ⟨⟨-, hall⟩, hgood, -⟩ hr
    obtain ⟨stack, n, hmade⟩ := hcall path w.fs r hr
    obtain ⟨hkeeps, hfits⟩ := hmade.keeps hnode hw hgood
    exact ⟨hkeeps, hfits, fun hN => (hall hN).made hw hmade hnode (hplain hN)⟩
  · refine register_triple (B := fun id s srv => N → StraightAll ids s srv ∧ id = fresh.inode.fileid)
      (fun _ _ h => h.1.good) ?_ fun _ => And.left
    intro s srv i h hi hN
    cases h.1.leads.symm.trans hi
    exact ⟨(h.2 hN).note (h.1.plain (hplain hN)).straight _, rfl⟩

theorem createNew_made (fresh : Fresh) (p : Path) (fs : FileSys) (r : Done Unit)
    (h : Syscall.createNew fresh p fs = .ok r) :
    ∃ stack n, Syscall.Made .file fresh false p fs r stack n :=
  Syscall.make_ok h

theorem mkdir_made (fresh : Fresh) (p : Path) (fs : FileSys) (r : Done Unit)
    (h : Syscall.mkdir fresh p fs = .ok r) :
    ∃ stack n, Syscall.Made (.dir ∅) fresh false p fs r stack n :=
  Syscall.make_ok h

/-- What was made is handed over, and the paths of its handle are straight. -/
theorem handover_triple {ids : Set FileId} {id dirid : FileId} (hid : id ∈ ids) (hdirid : dirid ∈ ids)
    (cred : UnixCred) :
    Triple (Holds e (StraightAll ids))
      (do
        chownNew id dirid cred
        return (id, ← getattr id))
      (fun _ => Export e) (Export e) := by
  refine .bind (chownNew_triple hid hdirid cred) fun _ => ?_
  refine .bind (.pre (getattr_triple id) fun _ h => ⟨h.1, (h.2 id hid).mono⟩) fun _ => ?_
  exact .pure fun _ h => h

theorem createWithCred_triple (k : Kernel) (dirid : FileId) (filename : Bytes) (attr : Sattr)
    (cred : UnixCred) :
    Triple (Holds e fun s srv => (NfsOp.createWithCred dirid filename attr cred).Straight k s srv)
      (createWithCred k dirid filename attr cred) (fun _ => Export e) (Export e) := by
  rintro w ⟨hw, hchild, hfresh, hfound⟩
  -- the handles that are straight before the operation stay so
  let ids : Set FileId := fun id => StraightTo true id w.fs.shape w.server
  have htriple : Triple (Holds e fun s srv =>
      (StraightChild dirid filename s srv ∧ StraightAll ids s srv) ∧
        (True → Answers ids k dirid filename s srv))
      (createWithCred k dirid filename attr cred) (fun _ => Export e) (Export e) := by
    refine .bind (create_triple ids True k dirid filename attr) ?_
    rintro ⟨id, a⟩
    refine .of_imp (fun hid => ?_) fun _ h => h.2.2 trivial
    exact (handover_triple hid hchild.1 cred).pre fun _ h => ⟨h.1, h.2.1⟩
  exact htriple w ⟨hw, ⟨hchild, fun _ hid => hid⟩, fun _ => ⟨hfresh, hfound⟩⟩

theorem createExclusive_triple (ids : Set FileId) (k : Kernel) (dirid : FileId) (filename : Bytes) :
    Triple (Holds e fun s srv => StraightTo true dirid s srv ∧ StraightAll ids s srv)
      (createExclusive k dirid filename)
      (fun id => Holds e fun s srv => StraightAll ids s srv ∧ id = k.fresh.inode.fileid)
      (Export e) := by
  refine .bind (.pre (makeNode_triple ids True Node.bare_file (by rintro - target ⟨⟩)
    (createNew_made k.fresh) dirid filename) fun _ h => ⟨h.1, h.2.1, fun _ => h.2.2⟩) ?_
  rintro ⟨id, m⟩
  exact .pure fun _ h => ⟨h.1, h.2 trivial⟩

theorem mkdir_triple (ids : Set FileId) (k : Kernel) (dirid : FileId) (dirname : Bytes) :
    Triple (Holds e fun s srv => StraightTo true dirid s srv ∧ StraightAll ids s srv)
      (mkdir k dirid dirname)
      (fun r => Holds e fun s srv => StraightAll ids s srv ∧ r.1 = k.fresh.inode.fileid)
      (Export e) := by
  refine .bind (.pre (makeNode_triple ids True Node.bare_dir (by rintro - target ⟨⟩)
    (mkdir_made k.fresh) dirid dirname) fun _ h => ⟨h.1, h.2.1, fun _ => h.2.2⟩) ?_
  rintro ⟨id, m⟩
  exact .pure fun _ h => ⟨h.1, h.2 trivial⟩

theorem symlink_triple (k : Kernel) (dirid : FileId) (linkname target : Bytes) :
    Triple (Holds e (StraightTo true dirid)) (symlink k dirid linkname target) (fun _ => Export e)
      (Export e) := by
  refine .bind (.pre (makeNode_triple ∅ False (Node.bare_symlink target) (fun h => h.elim)
    (fun _ _ _ h => Syscall.symlink_ok h) dirid linkname)
    fun _ h => ⟨h.1, h.2, fun hN => hN.elim⟩) ?_
  rintro ⟨id, m⟩
  exact .pure fun _ => And.left

theorem createExclusiveWithCred_triple (k : Kernel) (dirid : FileId) (filename : Bytes)
    (cred : UnixCred) :
    Triple (Holds e fun s srv => (NfsOp.createExclusiveWithCred dirid filename cred).Straight k s srv)
      (createExclusiveWithCred k dirid filename cred) (fun _ => Export e) (Export e) := by
  rintro w ⟨hw, hdir, hfresh⟩
  let ids : Set FileId := fun id => StraightTo true id w.fs.shape w.server
  have htriple : Triple (Holds e fun s srv => StraightTo true dirid s srv ∧ StraightAll ids s srv)
      (createExclusiveWithCred k dirid filename cred) (fun _ => Export e) (Export e) := by
    refine .bind (createExclusive_triple ids k dirid filename) fun id => ?_
    refine .of_imp (fun (hid : id = k.fresh.inode.fileid) => ?_) fun _ h => h.2.2
    subst hid
    refine .bind (.pre (chownNew_triple hfresh hdir cred) fun _ h => ⟨h.1, h.2.1⟩) fun _ => ?_
    exact .pure fun _ => And.left
  exact htriple w ⟨hw, hdir, fun _ hid => hid⟩

theorem mkdirWithCred_triple (k : Kernel) (dirid : FileId) (dirname : Bytes) (cred : UnixCred) :
    Triple (Holds e fun s srv => (NfsOp.mkdirWithCred dirid dirname cred).Straight k s srv)
      (mkdirWithCred k dirid dirname cred) (fun _ => Export e) (Export e) := by
  rintro w ⟨hw, hdir, hfresh⟩
  let ids : Set FileId := fun id => StraightTo true id w.fs.shape w.server
  have htriple : Triple (Holds e fun s srv => StraightTo true dirid s srv ∧ StraightAll ids s srv)
      (mkdirWithCred k dirid dirname cred) (fun _ => Export e) (Export e) := by
    refine .bind (mkdir_triple ids k dirid dirname) ?_
    rintro ⟨id, a⟩
    refine .of_imp (fun (hid : id = k.fresh.inode.fileid) => ?_) fun _ h => h.2.2
    subst hid
    exact (handover_triple hfresh hdir cred).pre fun _ h => ⟨h.1, h.2.1⟩
  exact htriple w ⟨hw, hdir, fun _ hid => hid⟩

/-! ### Names that go and move -/

theorem forgetPath_triple (id : FileId) (p : Path) {R : World → Prop} :
    Triple (Export e) (forgetPath id p) (fun _ => Export e) R := by
  refine .modify fun w hw => ⟨hw.tree, ?_, ?_, hw.log⟩
  · show w.fs.shape.leads w.fs.shape.root (w.server.forget id p).root = some e
    rw [PassthroughFs.forget_root]
    exact hw.rooted
  · intro id' q hq
    show (w.server.forget id p).root <+: q
    rw [PassthroughFs.forget_root]
    exact hw.below id' q (PassthroughFs.mem_stored_forget.mp hq).1

theorem remove_triple (dirid : FileId) (filename : Bytes) :
    Triple (Holds e fun s srv => StraightTo true dirid s srv ∧ srv.root ∉ srv.children dirid filename)
      (remove dirid filename) (fun _ => Export e) (Export e) := by
  have hstable : Stable fun s srv =>
      StraightTo true dirid s srv ∧ srv.root ∉ srv.children dirid filename := by
    refine (StraightTo.stable true dirid).and ?_
    intro s srv srv' hroot hsub h hmem
    rw [hroot] at hmem
    exact h (children_subset hroot hsub hmem)
  refine resolved_triple (C := fun q _ root => q ≠ root) hstable (fun _ _ h => h.1) ?_
    (fun _ => And.left) fun path => ?_
  · rintro s srv h q hq rfl
    exact h.2 hq
  refine .bind (lstat_triple (fun _ _ h => h.2.1) fun _ => And.left) fun m => ?_
  have hremoved : ∀ call : Syscall Unit,
      (∀ fs r, call fs = .ok r → ∃ stack n i, Syscall.Removed path fs r stack n i) →
      Triple (Holds e fun s srv => ((StraightTo true dirid s srv ∧
          srv.root ∉ srv.children dirid filename) ∧ Good false path s srv.root ∧ path ≠ srv.root) ∧
          s.leads s.root path = some m.inode ∧ (m.fileType = .dir → s.linkTarget m.inode = none))
        (do
          syscall call
          forgetPath m.inode.fileid path)
        (fun _ => Export e) (Export e) := by
    intro call hcall
    refine .bind (syscall_triple (B := fun _ _ _ => True) ?_ fun _ => And.left) fun _ =>
      (forgetPath_triple _ _).pre fun _ => And.left
    rintro w r hw ⟨⟨-, hgood, hne⟩, -⟩ hr
    obtain ⟨stack, n, i, hremoved⟩ := hcall w.fs r hr
    exact ⟨hremoved.keeps hw hgood hne, trivial⟩
  split
  · exact hremoved _ fun _ _ h => Syscall.rmdir_ok h
  · exact hremoved _ fun _ _ h => Syscall.unlink_ok h

theorem rename_triple (fromDirid : FileId) (fromFilename : Bytes) (toDirid : FileId)
    (toFilename : Bytes) :
    Triple (Holds e fun s srv => StraightTo true fromDirid s srv ∧ StraightTo true toDirid s srv)
      (rename fromDirid fromFilename toDirid toFilename) (fun _ => Export e) (Export e) := by
  have hstable := (StraightTo.stable true fromDirid).and (StraightTo.stable true toDirid)
  refine .bind (pathOf_triple (C := Good true) hstable (fun _ _ h => h.1.mono)
    (fun _ _ p h hp hbelow => ⟨hbelow, h.1 p hp⟩) fun _ => And.left) fun fromDir => ?_
  refine .bind (pathOf_triple (C := Good true) (hstable.and (Stable.of_root (Good true fromDir)))
    (fun _ _ h => h.1.2.mono) (fun _ _ p h hp hbelow => ⟨hbelow, h.1.2 p hp⟩) fun _ => And.left)
    fun toDir => ?_
  refine .bind (.pre (child_triple (C := fun _ _ _ => True) (A := fun s srv =>
    Good true toDir s srv.root) fun _ => And.left)
    fun _ h => ⟨h.1, h.2.2, h.2.1.2, fun _ _ => trivial⟩) fun src => ?_
  refine .bind (.pre (child_triple (C := fun _ _ _ => True) (A := fun s srv =>
    Good false src s srv.root) fun _ => And.left)
    fun _ h => ⟨h.1, h.2.2.1, h.2.1, fun _ _ => trivial⟩) fun dst => ?_
  refine .bind (syscall_triple (B := fun _ s srv => Good false dst s srv.root) ?_
    fun _ => And.left) fun _ => ?_
  · rintro w r hw ⟨hsrc, hdst, -⟩ hr
    rcases Syscall.rename_ok hr with ⟨stack, n, i, stack', n', hl, -, rfl⟩ | ⟨_, _, _, _, _, _, hmoved⟩
    · refine ⟨.look hw rfl (List.forall_mem_singleton.mpr ?_), hdst⟩
      refine hw.inside_of_find hsrc ?_
      unfold Shape.find
      rw [hl]
      rfl
    · exact hmoved.keeps hw hsrc hdst
  · refine .bind (register_triple (B := fun _ _ _ => True) (fun _ _ h => h)
      (fun _ _ _ _ _ => trivial) fun _ => And.left).attempt ?_
    intro r
    cases r with
    | ok _ => exact .pure fun _ => And.left
    | error _ => exact .pure fun _ h => h

theorem link_triple (id dirid : FileId) (linkname : Bytes) :
    Triple (Holds e fun s srv => StraightTo false id s srv ∧ StraightTo true dirid s srv)
      (link id dirid linkname) (fun _ => Export e) (Export e) := by
  have hstable := (StraightTo.stable false id).and (StraightTo.stable true dirid)
  refine .bind (pathOf_triple (C := Good false) hstable (fun _ _ h => h.1)
    (fun _ _ p h hp hbelow => ⟨hbelow, h.1 p hp⟩) fun _ => And.left) fun existing => ?_
  refine resolved_triple (C := fun _ _ _ => True)
    (hstable.and (Stable.of_root (Good false existing))) (fun _ _ h => h.1.2)
    (fun _ _ _ _ _ => trivial) (fun _ => And.left) fun newPath => ?_
  refine .bind (syscall_triple (B := fun _ s srv => Good false newPath s srv.root) ?_
    fun _ => And.left) fun _ => ?_
  · rintro w r hw ⟨⟨-, hexisting⟩, hnew, -⟩ hr
    obtain ⟨i, stack, n, hlinked⟩ := Syscall.hardLink_ok hr
    exact hlinked.keeps hw hexisting hnew
  · refine .bind (register_triple (B := fun _ _ _ => True) (fun _ _ h => h)
      (fun _ _ _ _ _ => trivial) fun _ => And.left) ?_
    rintro ⟨newId, m⟩
    exact .pure fun _ => And.left

/-! ### Listing a directory -/

/-- The paths that `readdir` goes through are names in the directory. -/
theorem listEntries_triple (maxEntries : Nat) (l : List (UInt64 × FileId × Path)) :
    Triple (Holds e fun s srv => ∀ x ∈ l, Good false x.2.2 s srv.root) (listEntries maxEntries l)
      (fun _ => Export e) (Export e) := by
  induction l generalizing maxEntries with
  | nil =>
    cases maxEntries with
    | zero => exact .pure fun _ => And.left
    | succ _ => exact .pure fun _ => And.left
  | cons x rest ih =>
    obtain ⟨cookie, id, path⟩ := x
    cases maxEntries with
    | zero => exact .pure fun _ => And.left
    | succ maxEntries =>
      refine .bind (lstat_triple (fun _ _ h => h _ List.mem_cons_self) fun _ => And.left)
        fun m => ?_
      refine .bind (notePath_triple (B := fun s srv => ∀ x ∈ rest, Good false x.2.2 s srv.root)
        (fun _ _ h => (h.1 _ List.mem_cons_self).below) ?_) fun _ => ?_
      · intro s srv h y hy
        rw [PassthroughFs.note_root]
        exact h.1 y (List.mem_cons_of_mem _ hy)
      · exact .bind (ih maxEntries) fun _ => .pure fun _ h => h

theorem readdir_triple (sha : Bytes → UInt64) (dirid startAfter : FileId) (maxEntries : Nat) :
    Triple (Holds e (StraightTo false dirid)) (readdir sha dirid startAfter maxEntries)
      (fun _ => Export e) (Export e) := by
  refine .bind (pathOf_triple (C := Good false) (StraightTo.stable false dirid) (fun _ _ h => h)
    (fun _ _ p h hp hbelow => ⟨hbelow, h p hp⟩) fun _ => And.left) fun dir => ?_
  refine .bind (lstat_triple (fun _ _ h => h.2) fun _ => And.left) fun dmeta => ?_
  split
  · exact .bind (.throw (Q := fun _ _ => False) fun _ => And.left) fun _ _ h => h.elim
  · next hdir =>
    refine .bind (syscall_triple (B := fun _ s srv => Good true dir s srv.root) ?_
      fun _ => And.left) fun entries => ?_
    · rintro w r hw ⟨⟨-, hgood⟩, hleads, hplain⟩ hr
      -- what is listed is a directory, so that the last name is no link
      have htrue : Good true dir w.fs.shape w.server.root :=
        ⟨hgood.below, Shape.straight_true_of_leads hleads (hplain (not_not.mp hdir))⟩
      obtain ⟨d, hd, -, rfl⟩ := Syscall.readDir_ok hr
      have hinside := hw.inside_of_find htrue hd
      refine ⟨.look hw rfl (List.forall_mem_cons.mpr ⟨hinside, ?_⟩), htrue⟩
      intro i hi
      obtain ⟨⟨n, j⟩, hj, rfl⟩ := List.mem_map.mp hi
      obtain ⟨c, hc⟩ := hinside
      exact ⟨c ++ [n], descend_concat_eq_some.mpr ⟨d, hc, Shape.mem_listing.mp hj⟩⟩
    · refine .bind (.pre (listEntries_triple maxEntries _) ?_) fun _ => .pure fun _ h => h
      rintro w ⟨hw, hgood⟩
      refine ⟨hw, fun x hx => ?_⟩
      obtain ⟨m, -, hpath, -⟩ := mem_withCookies (List.mem_of_mem_drop hx)
      rw [hpath]
      exact ⟨hgood.below.trans (List.prefix_append _ _), Shape.straight_concat hgood.straight _⟩

end Operations

/-! ## Runs -/

/-- One operation, whether it succeeds or fails. -/
theorem exec_triple {e : Inode} (sha : Bytes → UInt64) (k : Kernel) (op : NfsOp) :
    Triple (Holds e fun s srv => op.Straight k s srv) (op.exec sha k) (fun _ => Export e)
      (Export e) := by
  cases op with
  | lookup dirid filename => exact .map (lookup_triple dirid filename)
  | getattr id => exact .map (getattr_triple id)
  | setattr id attr => exact .map (setattr_triple k.now id attr)
  | read id offset count => exact .map (read_triple id offset count)
  | write id offset data stable => exact .map (writeStable_triple id offset data stable)
  | commit id => exact .map (commit_triple id)
  | create dirid filename attr =>
    refine .map (.conseq (create_triple ∅ False k dirid filename attr) ?_ (fun _ _ => And.left)
      fun _ h => h)
    exact fun _ h => ⟨h.1, ⟨h.2, fun _ hid => hid.elim⟩, fun hN => hN.elim⟩
  | createExclusive dirid filename =>
    refine .map (.conseq (createExclusive_triple ∅ k dirid filename) ?_ (fun _ _ => And.left)
      fun _ h => h)
    exact fun _ h => ⟨h.1, h.2, fun _ hid => hid.elim⟩
  | mkdir dirid dirname =>
    refine .map (.conseq (mkdir_triple ∅ k dirid dirname) ?_ (fun _ _ => And.left) fun _ h => h)
    exact fun _ h => ⟨h.1, h.2, fun _ hid => hid.elim⟩
  | createWithCred dirid filename attr cred =>
    exact .map (createWithCred_triple k dirid filename attr cred)
  | createExclusiveWithCred dirid filename cred =>
    exact .map (createExclusiveWithCred_triple k dirid filename cred)
  | mkdirWithCred dirid dirname cred => exact .map (mkdirWithCred_triple k dirid dirname cred)
  | remove dirid filename => exact .map (remove_triple dirid filename)
  | rename fromDirid fromFilename toDirid toFilename =>
    exact .map (rename_triple fromDirid fromFilename toDirid toFilename)
  | readdir dirid startAfter maxEntries =>
    exact .map (readdir_triple sha dirid startAfter maxEntries)
  | symlink dirid linkname target => exact .map (symlink_triple k dirid linkname target)
  | readlink id => exact .map (readlink_triple id)
  | link id dirid linkname => exact .map (link_triple id dirid linkname)

theorem Export.step {e : Inode} {sha : Bytes → UInt64} {w w' : World} {a : NfsAct} (hw : Export e w)
    (ha : a.op.Straight a.kernel w.fs.shape w.server) (hstep : nfsStep sha w a = some w') :
    Export e w' := by
  have hrun := exec_triple (e := e) sha a.kernel a.op w ⟨hw, ha⟩
  unfold nfsStep at hstep
  split at hstep
  · next hexec =>
    cases hstep
    rw [hexec] at hrun
    exact hrun
  · next hexec =>
    cases hstep
    rw [hexec] at hrun
    exact hrun

/-- A new server: the table has the root, under its canonical path. -/
theorem Export.new {fs : FileSys} (htree : fs.shape.WellFormed) {root : List Comp}
    {server : PassthroughFs} (hnew : PassthroughFs.new fs root = .ok server) :
    ∃ e, fs.shape.find false server.root = .ok e ∧ Export e ⟨server, fs, []⟩ := by
  obtain ⟨p, hp, hnew⟩ := ok_of_bind hnew
  obtain ⟨m, hm, hnew⟩ := ok_of_bind hnew
  cases hnew
  obtain ⟨e, he, rfl⟩ := Syscall.lstat_ok hm
  obtain ⟨i, hi⟩ := Shape.canonicalize_leads hp
  have hfind := Shape.find_of_leads hi
  refine ⟨e, he, htree, ?_, ?_, List.forall_mem_nil _⟩
  · cases hfind.symm.trans he
    exact hi
  · intro id q hq
    unfold PassthroughFs.stored at hq
    dsimp only at hq ⊢
    by_cases hid : id = (fs.metadata e).inode.fileid
    · rw [hid, Finmap.lookup_singleton_eq, Option.getD_some, List.mem_singleton] at hq
      rw [hq]
    · rw [Finmap.lookup_eq_none.mpr (by rwa [Finmap.mem_singleton]), Option.getD_none] at hq
      cases hq

/-- In a run whose operations go through no link, everything that the server touches lies in the
subtree of the root that was exported. -/
theorem export_confined (sha : Bytes → UInt64) {fs : FileSys} (htree : fs.shape.WellFormed)
    {root : List Comp} {server : PassthroughFs} (hnew : PassthroughFs.new fs root = .ok server)
    {acts : List NfsAct} {w : World}
    (hrun : Run (nfsStep sha) (fun w a => a.op.Straight a.kernel w.fs.shape w.server)
      ⟨server, fs, []⟩ acts w) :
    ∃ e, fs.shape.find false server.root = .ok e ∧ ∀ a ∈ w.log, a.Confined e := by
  obtain ⟨e, he, hstart⟩ := Export.new htree hnew
  have hend : Export e w := hrun.keeps (I := Export e) (fun ha hw hstep => hw.step ha hstep) hstart
  exact ⟨e, he, hend.log⟩

/-! ## A link out of the export -/

/-- A list of inodes that no entry leaves. -/
def Shape.ClosedUnder (s : Shape) (l : List Inode) : Prop := ∀ j ∈ l, ∀ x ∈ s.listing j, x.2 ∈ l

instance (s : Shape) (l : List Inode) : Decidable (s.ClosedUnder l) :=
  inferInstanceAs (Decidable (∀ j ∈ l, ∀ x ∈ s.listing j, x.2 ∈ l))

theorem Shape.ClosedUnder.not_inside {s : Shape} {l : List Inode} (h : s.ClosedUnder l) {e i : Inode}
    (he : e ∈ l) (hi : i ∉ l) : ¬ s.Inside e i := by
  rintro ⟨p, hp⟩
  have hclosed : ∀ c ∈ {j | j ∈ l}, ∀ n j, s.entry c n = some j → j ∈ {j | j ∈ l} :=
    fun c hc n j hj => h c hc (n, j) (Shape.mem_listing.mpr hj)
  have hmem : i ∈ {j | j ∈ l} := descend_mem hclosed he hp
  exact hi hmem

/-- The names `e`, `o` and `s`. -/
def exportName : Name := ⟨[101], by decide⟩

def otherName : Name := ⟨[111], by decide⟩

def secretName : Name := ⟨[115], by decide⟩

def plainAttr : Attr := ⟨0o644, 0, 0, ⟨0, 0⟩, ⟨0, 0⟩⟩

/-- `/` alone. -/
def slash : Shape := ⟨⟨1, 1⟩, Finmap.singleton ⟨1, 1⟩ (.dir ∅)⟩

theorem slash_wellFormed : slash.WellFormed := by
  have hentry : ∀ d n, slash.entry d n = none := by
    intro d n
    unfold Shape.entry slash
    by_cases hd : d = ⟨1, 1⟩
    · rw [hd, Finmap.lookup_singleton_eq]
      exact Finmap.lookup_empty n
    · rw [Finmap.lookup_eq_none.mpr (by rwa [Finmap.mem_singleton])]
  refine ⟨by decide +kernel, ?_, ?_, ?_⟩
  · intro d n i hi
    cases (hentry d n).symm.trans hi
  · intro d n d' n' i hi
    cases (hentry d n).symm.trans hi
  · intro d n hi
    cases (hentry d n).symm.trans hi

/-- `/e` and `/o`. -/
def twoDirs : Shape :=
  (slash.add ⟨1, 1⟩ exportName ⟨1, 2⟩ (.dir ∅)).add ⟨1, 1⟩ otherName ⟨1, 3⟩ (.dir ∅)

theorem twoDirs_wellFormed : twoDirs.WellFormed := by
  have hexport : (slash.add ⟨1, 1⟩ exportName ⟨1, 2⟩ (.dir ∅)).WellFormed :=
    Shape.wellFormed_add (by decide +kernel) (by decide +kernel) slash_wellFormed Node.bare_dir _
  exact Shape.wellFormed_add (by decide +kernel) (by decide +kernel) hexport Node.bare_dir _

/-- `/e`, which is exported, and `/o/s` beside it. -/
def siblings : FileSys where
  shape := twoDirs.add ⟨1, 3⟩ secretName ⟨1, 4⟩ .file
  data := fun i => if i = ⟨1, 4⟩ then [7] else []
  attr := fun _ => plainAttr

theorem siblings_wellFormed : siblings.shape.WellFormed := by
  have hdir : twoDirs.isDir ⟨1, 3⟩ = true := by decide +kernel
  have hunused : (⟨1, 4⟩ : Inode) ∉ twoDirs.nodes := by decide +kernel
  exact Shape.wellFormed_add hdir hunused twoDirs_wellFormed Node.bare_file secretName

def exported : PassthroughFs :=
  ⟨[exportName], Finmap.singleton (Inode.fileid ⟨1, 2⟩) [[exportName]], Inode.fileid ⟨1, 2⟩⟩

theorem exported_new : PassthroughFs.new siblings [.name exportName] = .ok exported := rfl

/-- What the kernel gives the next node. -/
def kernelOf (ino : UInt64) : Kernel := ⟨⟨⟨1, ino⟩, plainAttr⟩, ⟨1, 0⟩⟩

/-- A client makes a link to `/o`, looks `s` up through the handle of the link, and reads it. -/
def throughLink : List NfsAct :=
  [⟨kernelOf 5, .symlink (Inode.fileid ⟨1, 2⟩) [108] [47, 111]⟩,
    ⟨kernelOf 6, .lookup (Inode.fileid ⟨1, 5⟩) [115]⟩,
    ⟨kernelOf 6, .read (Inode.fileid ⟨1, 4⟩) 0 1⟩]

theorem export_escaped :
    ∃ w e, siblings.shape.WellFormed ∧ PassthroughFs.new siblings [.name exportName] = .ok exported ∧
      Run (nfsStep fun _ => 0) (fun _ _ => True) ⟨exported, siblings, []⟩ throughLink w ∧
      siblings.shape.find false exported.root = .ok e ∧ ∃ a ∈ w.log, ¬ a.Confined e := by
  obtain ⟨w, hw, a, ha, htouched, hbefore, hclosed⟩ :
      ∃ w, run (nfsStep fun _ => 0) (fun _ _ => True) ⟨exported, siblings, []⟩ throughLink = some w ∧
        ∃ a ∈ w.log, ⟨1, 4⟩ ∈ a.touched ∧ ⟨1, 4⟩ ∈ a.before.nodes ∧
          a.before.ClosedUnder [⟨1, 2⟩, ⟨1, 5⟩] := run_exists (by decide +kernel)
  refine ⟨w, ⟨1, 2⟩, siblings_wellFormed, exported_new, run_sound hw, by decide +kernel, a, ha, ?_⟩
  intro hconfined
  have hinside := hconfined _ htouched
  rw [if_pos hbefore] at hinside
  exact hclosed.not_inside (by decide) (by decide) hinside

/-- A run that makes, writes, renames, lists and removes, and goes through no link. -/
def throughNames : List NfsAct :=
  [⟨kernelOf 5, .mkdir (Inode.fileid ⟨1, 2⟩) [100]⟩,
    ⟨kernelOf 6, .createExclusive (Inode.fileid ⟨1, 5⟩) [102]⟩,
    ⟨kernelOf 7, .write (Inode.fileid ⟨1, 6⟩) 0 [9] true⟩,
    ⟨kernelOf 7, .symlink (Inode.fileid ⟨1, 2⟩) [108] [47, 111]⟩,
    ⟨kernelOf 8, .rename (Inode.fileid ⟨1, 5⟩) [102] (Inode.fileid ⟨1, 2⟩) [103]⟩,
    ⟨kernelOf 8, .readdir (Inode.fileid ⟨1, 2⟩) 0 10⟩,
    ⟨kernelOf 8, .lookup (Inode.fileid ⟨1, 2⟩) [46, 46]⟩,
    ⟨kernelOf 8, .remove (Inode.fileid ⟨1, 2⟩) [103]⟩]

theorem export_confined_throughNames :
    ∃ w e, Run (nfsStep fun _ => 0) (fun w a => a.op.Straight a.kernel w.fs.shape w.server)
        ⟨exported, siblings, []⟩ throughNames w ∧
      8 < w.log.length ∧ siblings.shape.find false exported.root = .ok e ∧
      ∀ a ∈ w.log, a.Confined e := by
  obtain ⟨w, hw, hlog⟩ :
      ∃ w, run (nfsStep fun _ => 0) (fun w a => a.op.Straight a.kernel w.fs.shape w.server)
        ⟨exported, siblings, []⟩ throughNames = some w ∧ 8 < w.log.length :=
    run_exists (by decide +kernel)
  obtain ⟨e, he, hconfined⟩ :=
    export_confined (fun _ => 0) siblings_wellFormed exported_new (run_sound hw)
  exact ⟨w, e, run_sound hw, hlog, he, hconfined⟩

end NessieStore.Nfs
