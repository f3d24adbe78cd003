import NessieStore.Nfs.Handles

/-!
# The exported root stays

`remove` and `rename` take any name in any directory, and `child_path` makes a path of the root
itself out of the empty name, `.` and `..`. The kernel then has the last word: it removes no
directory that has entries, and moves none beneath itself. That protects the root of an export with
something in it, but not an empty one (`root_lost`), and not where the target of a rename goes
through a symbolic link, behind which the new name is no longer beneath the root.

Apart from these two the root stays (`root_stays`), whatever else clients do, also through links:
`NfsOp.SparesRoot` is the condition. What carries it is `Rooted`: the path of the root leads to it,
and every path of the table goes on from there. A new name leaves that alone. A name that goes, or a
moved one, can only hurt the root if it is the root's or that of a directory above it.
-/

set_option autoImplicit false

namespace NessieStore.Nfs

open Lib

/-! ## The condition -/

/-- The names that `child_path` takes for the directory itself or the one above. -/
def special (name : Bytes) : Prop := name = [] ∨ name = [46] ∨ name = [46, 46]

instance (name : Bytes) : Decidable (special name) := inferInstanceAs (Decidable (_ ∨ _ ∨ _))

/-- The directory that the path of the root names has entries. -/
def RootFilled (s : Shape) (srv : PassthroughFs) : Prop :=
  ∃ e ∈ (s.find false srv.root).toOption, s.names e ≠ ∅

instance (s : Shape) (srv : PassthroughFs) : Decidable (RootFilled s srv) :=
  inferInstanceAs (Decidable (∃ e ∈ (s.find false srv.root).toOption, s.names e ≠ ∅))

/-- The name in the directory stands for the root of the export or for a directory above it. -/
def NamesAbove (s : Shape) (srv : PassthroughFs) (dirid : FileId) (name : Bytes) : Prop :=
  ∃ p ∈ srv.target s dirid name, ∃ i ∈ (s.find false p).toOption,
    ∃ q ∈ srv.root.inits, s.leads s.root q = some i

instance (s : Shape) (srv : PassthroughFs) (dirid : FileId) (name : Bytes) :
    Decidable (NamesAbove s srv dirid name) :=
  inferInstanceAs (Decidable (∃ p ∈ srv.target s dirid name, ∃ i ∈ (s.find false p).toOption,
    ∃ q ∈ srv.root.inits, s.leads s.root q = some i))

/-- A special name in the root is removed only while the export is not empty, and a rename of the root
or of a directory above it goes to a directory whose path meets no link. -/
def NfsOp.SparesRoot (s : Shape) (srv : PassthroughFs) : NfsOp → Prop
  | .remove dirid name => srv.answer s dirid = some srv.root → special name → RootFilled s srv
  | .rename fromDirid fromFilename toDirid _ => NamesAbove s srv fromDirid fromFilename →
      ∀ p ∈ srv.answer s toDirid, s.straight true s.root p = true
  | _ => True

instance (s : Shape) (srv : PassthroughFs) (op : NfsOp) : Decidable (op.SparesRoot s srv) := by
  unfold NfsOp.SparesRoot
  split <;> infer_instance

/-! ## What is kept -/

/-- The root of the export is the directory `e`, under its own path, and every path of the table goes
on from there. -/
structure Rooted (root : Path) (e : Inode) (s : Shape) (srv : PassthroughFs) : Prop where
  tree : s.WellFormed
  path : srv.root = root
  leads : s.leads s.root srv.root = some e
  dir : s.isDir e = true
  below : ∀ id, ∀ p ∈ srv.stored id, srv.root <+: p

namespace Rooted

variable {root : Path} {e : Inode} {s : Shape} {srv : PassthroughFs}

theorem stable (root : Path) (e : Inode) : Stable (Rooted root e) := by
  intro s srv srv' hroot hsub h
  refine ⟨h.tree, hroot.trans h.path, ?_, h.dir, ?_⟩
  · rw [hroot]
    exact h.leads
  · intro id p hp
    rw [hroot]
    exact h.below id p (hsub id p hp)

theorem lasting (root : Path) (e : Inode) : Lasting (Rooted root e) := (stable root e).lasting

theorem note (h : Rooted root e s srv) {p : Path} (hp : srv.root <+: p) (id : FileId) :
    Rooted root e s (srv.note id p) := by
  refine ⟨h.tree, (PassthroughFs.note_root id p).trans h.path, ?_, h.dir, ?_⟩
  · rw [PassthroughFs.note_root]
    exact h.leads
  · intro id' q hq
    rw [PassthroughFs.note_root]
    rcases PassthroughFs.mem_stored_note.mp hq with hold | ⟨-, rfl⟩
    · exact h.below id' q hold
    · exact hp

theorem forget (h : Rooted root e s srv) (id : FileId) (p : Path) :
    Rooted root e s (srv.forget id p) := by
  refine ⟨h.tree, (PassthroughFs.forget_root id p).trans h.path, ?_, h.dir, ?_⟩
  · rw [PassthroughFs.forget_root]
    exact h.leads
  · intro id' q hq
    rw [PassthroughFs.forget_root]
    exact h.below id' q (PassthroughFs.mem_stored_forget.mp hq).1

theorem below_target (h : Rooted root e s srv) {dirid : FileId} {name : Bytes} {q : Path}
    (hq : srv.target s dirid name = some q) : srv.root <+: q := by
  obtain ⟨p, hp, hchild⟩ := Option.bind_eq_some_iff.mp hq
  obtain ⟨hstored, -⟩ := PassthroughFs.answer_spec hp
  exact below_child (h.below dirid p hstored) (toOption_eq_some_iff.mp hchild)

/-! ### New names -/

/-- A tree in which every name is still there. -/
theorem grown (h : Rooted root e s srv) {s' : Shape} (htree : s'.WellFormed) (hroot : s'.root = s.root)
    (hentry : ∀ d n i, s.entry d n = some i → s'.entry d n = some i)
    (hdir : s'.isDir e = s.isDir e) : Rooted root e s' srv := by
  refine ⟨htree, h.path, ?_, ?_, h.below⟩
  · rw [hroot]
    exact descend_shrink hentry h.leads
  · rw [hdir]
    exact h.dir

variable {fs : FileSys}

theorem made (h : Rooted root e fs.shape srv) {node : Node} (hnode : node.Bare) {fresh : Fresh}
    {follow : Bool} {p : Path} {r : Done Unit} {stack : Stack} {n : Name}
    (hmade : Syscall.Made node fresh follow p fs r stack n) : Rooted root e r.fs.shape srv := by
  obtain ⟨-, hdir, -⟩ := Shape.locate_landed hmade.located
  have hedit := hmade.edit hnode
  refine h.grown (hedit.wellFormed h.tree) hedit.root_eq (fun _ _ _ => (hmade.binds hnode).keeps) ?_
  rw [hmade.shape]
  exact Shape.isDir_add hdir hmade.unused n (Shape.mem_of_isDir h.dir)

theorem linked (h : Rooted root e fs.shape srv) {existing p : Path} {r : Done Unit} {i : Inode}
    {stack : Stack} {n : Name} (hlinked : Syscall.Linked existing p fs r i stack n) :
    Rooted root e r.fs.shape srv := by
  obtain ⟨-, hdir, -⟩ := Shape.locate_landed hlinked.located
  have hedit := hlinked.edit (h.tree.mem_of_find hlinked.found)
  refine h.grown (hedit.wellFormed h.tree) hedit.root_eq (fun _ _ _ => hlinked.binds.keeps) ?_
  rw [hlinked.shape, Shape.isDir_setEntry hdir]

/-! ### Names that go and move -/

/-- What is removed is empty, so that it is the root or not on the way to it. -/
theorem removed (h : Rooted root e fs.shape srv) {p : Path} {r : Done Unit} {stack : Stack} {n : Name}
    {i : Inode} (hremoved : Syscall.Removed p fs r stack n i) (hne : i ≠ e) :
    Rooted root e r.fs.shape srv := by
  obtain ⟨-, -, hbound⟩ := Shape.locate_landed hremoved.located
  refine ⟨hremoved.edit.wellFormed h.tree, h.path, ?_, ?_, h.below⟩
  · rw [hremoved.edit.root_eq]
    refine descend_kept h.leads ?_
    intro q m rest c j hsplit hc hj
    rw [hremoved.entry_eq, if_neg]
    · exact hj
    · rintro ⟨rfl, rfl⟩
      cases hbound.trans hj
      have hrest := h.leads
      rw [hsplit] at hrest
      obtain ⟨c', hc', hdown⟩ := descend_append_eq_some.mp hrest
      cases hc.symm.trans hc'
      obtain ⟨j, hj', hdown⟩ := Option.bind_eq_some_iff.mp hdown
      cases hj.symm.trans hj'
      exact hne (Shape.eq_of_leads hremoved.empty hdown).symm
  · rw [hremoved.shape, Shape.isDir_unlink hbound.symm (Ne.symm hne)]
    exact h.dir

/-- What is moved is not on the way to the root, and replaces something else. -/
theorem moved (h : Rooted root e fs.shape srv) {src dst : Path} {r : Done Unit} {stack : Stack}
    {n : Name} {i : Inode} {stack' : Stack} {n' : Name} {old : Option Inode}
    (hmoved : Syscall.Moved src dst fs r stack n i stack' n' old) (habove : ¬ fs.shape.Inside i e)
    (hold : old ≠ some e) : Rooted root e r.fs.shape srv := by
  obtain ⟨-, -, hbound⟩ := Shape.locate_landed hmoved.source
  obtain ⟨-, hdir, hfound⟩ := Shape.locate_landed hmoved.target
  refine ⟨hmoved.edit.wellFormed h.tree, h.path, ?_, ?_, h.below⟩
  · rw [hmoved.edit.root_eq]
    refine descend_kept h.leads ?_
    intro q m rest c j hsplit hc hj
    -- the rest of the root's path leads from `j` to the root
    have hdown : fs.shape.leads j rest = some e := by
      have hrest := h.leads
      rw [hsplit] at hrest
      obtain ⟨c', hc', hdown⟩ := descend_append_eq_some.mp hrest
      cases hc.symm.trans hc'
      obtain ⟨j', hj', hdown⟩ := Option.bind_eq_some_iff.mp hdown
      cases hj.symm.trans hj'
      exact hdown
    rw [hmoved.entry_eq, if_neg, if_neg]
    · exact hj
    · rintro ⟨rfl, rfl⟩
      cases hbound.trans hj
      exact habove ⟨rest, hdown⟩
    · rintro ⟨rfl, rfl⟩
      have hold' : old = some j := hfound.trans hj
      cases Shape.eq_of_leads (hmoved.replaced j hold').2 hdown
      exact hold hold'
  · rw [hfound] at hold
    rw [hmoved.shape, hfound, Shape.isDir_move hbound.symm hdir hold]
    exact h.dir

/-! ### What the kernel refuses -/

theorem find_root (h : Rooted root e s srv) : s.find false srv.root = .ok e :=
  Shape.find_of_leads h.leads

/-- In an empty export only the root's own path names anything. -/
theorem eq_root_of_find (h : Rooted root e s srv) (hempty : ∀ m, s.entry e m = none) {p : Path}
    (hp : srv.root <+: p) {i : Inode} (hfind : s.find false p = .ok i) : p = srv.root := by
  obtain ⟨c, rfl⟩ := hp
  cases c with
  | nil => exact List.append_nil _
  | cons n c => exact absurd hfind (Shape.find_behind_empty h.leads h.dir hempty n c)

/-- Only a special name in the root comes to the root. -/
theorem special_of_childPath {name : Bytes}
    (h : childPath root root name = .ok root) : special name := by
  unfold childPath at h
  split at h
  · next hname => exact hname.elim .inl fun hdot => .inr (.inl hdot)
  · split at h
    · next hname => exact .inr (.inr hname)
    · split at h
      · have hlen := congrArg List.length (Except.ok.inj h)
        rw [List.length_append, List.length_singleton] at hlen
        omega
      · cases h

/-- A removal that takes the root away finds an empty export and a special name in its root. -/
theorem remove_spares (h : Rooted root e fs.shape srv) {dirid : FileId} {name : Bytes} {q : Path}
    (hspares : (NfsOp.remove dirid name).SparesRoot fs.shape srv)
    (hq : srv.target fs.shape dirid name = some q) {r : Done Unit} {stack : Stack} {n : Name}
    {i : Inode} (hremoved : Syscall.Removed q fs r stack n i) : i ≠ e := by
  rintro rfl
  have hfind : fs.shape.find false q = .ok i := by
    unfold Shape.find
    rw [hremoved.located]
    rfl
  have hroot := h.eq_root_of_find hremoved.empty (h.below_target hq) hfind
  subst hroot
  obtain ⟨dir, hdir, hchild⟩ := Option.bind_eq_some_iff.mp hq
  obtain ⟨hstored, hlive⟩ := PassthroughFs.answer_spec hdir
  obtain ⟨j, hj, -⟩ := Shape.live_iff.mp hlive
  cases h.eq_root_of_find hremoved.empty (h.below dirid dir hstored) hj
  obtain ⟨e', he', hfilled⟩ := hspares hdir (special_of_childPath (toOption_eq_some_iff.mp hchild))
  cases h.find_root.symm.trans (toOption_eq_some_iff.mp he')
  obtain ⟨m, hm⟩ := Finset.nonempty_iff_ne_empty.mpr hfilled
  obtain ⟨k, hk⟩ := Shape.exists_entry_of_mem_names hm
  rw [hremoved.empty m] at hk
  cases hk

section Rename

variable {src dst : Path} {r : Done Unit} {stack stack' : Stack} {n n' : Name} {i : Inode}
  {old : Option Inode}

theorem find_of_moved (hmoved : Syscall.Moved src dst fs r stack n i stack' n' old) :
    fs.shape.find false src = .ok i := by
  unfold Shape.find
  rw [hmoved.source]
  rfl

/-- A rename does not replace the root: it would be empty, and then the source is the root as well. -/
theorem rename_replaces (h : Rooted root e fs.shape srv) (hsrc : srv.root <+: src)
    (hmoved : Syscall.Moved src dst fs r stack n i stack' n' old) : old ≠ some e := by
  intro hold
  obtain ⟨hne, hempty⟩ := hmoved.replaced e hold
  have hfind := find_of_moved hmoved
  cases h.eq_root_of_find hempty hsrc hfind
  cases h.find_root.symm.trans hfind
  exact hne rfl

/-- The way to the root goes through what is moved, if the root is in there. -/
theorem root_eq_of_inside (h : Rooted root e fs.shape srv)
    (hmoved : Syscall.Moved src dst fs r stack n i stack' n' old) (hinside : fs.shape.Inside i e) :
    fs.shape.leads fs.shape.root (stack.path ++ [n]) = some i ∧
      ∃ p, srv.root = stack.path ++ [n] ++ p := by
  obtain ⟨hchain, -, hbound⟩ := Shape.locate_landed hmoved.source
  obtain ⟨p, hp⟩ := hinside
  have hi : fs.shape.leads fs.shape.root (stack.path ++ [n]) = some i :=
    descend_concat_eq_some.mpr ⟨_, hchain.leads, hbound.symm⟩
  exact ⟨hi, p, h.tree.forest.descend_inj h.dir h.leads (descend_append_eq_some.mpr ⟨i, hi, hp⟩)⟩

/-- A rename to a path without links moves neither the root nor a directory above it: the new name is
the root's own or beneath it. -/
theorem rename_moves (h : Rooted root e fs.shape srv) (hsrc : srv.root <+: src)
    (hdst : Good false dst fs.shape srv.root)
    (hmoved : Syscall.Moved src dst fs r stack n i stack' n' old) : ¬ fs.shape.Inside i e := by
  intro hinside
  obtain ⟨hi, p, hroot⟩ := h.root_eq_of_inside hmoved hinside
  obtain ⟨-, -, hfound⟩ := Shape.locate_landed hmoved.target
  obtain ⟨q', rfl, hst'⟩ := hdst.located hmoved.target
  rcases List.prefix_concat_iff.mp hdst.below with heq | ⟨c, rfl⟩
  · obtain ⟨d, hd, he⟩ := descend_concat_eq_some.mp (heq ▸ h.leads)
    cases (Shape.leads_of_climb hst').symm.trans hd
    exact h.rename_replaces hsrc hmoved (hfound.trans he)
  · -- the way to the new name goes through what is moved as well
    rw [hroot, List.append_assoc, List.append_assoc, List.singleton_append] at hst'
    exact hmoved.above (Shape.mem_climb hst' hi)

theorem rename_spares (h : Rooted root e fs.shape srv) {fromDirid toDirid : FileId}
    {fromFilename toFilename : Bytes} {toDir : Path}
    (hspares : (NfsOp.rename fromDirid fromFilename toDirid toFilename).SparesRoot fs.shape srv)
    (hsrc : srv.target fs.shape fromDirid fromFilename = some src)
    (hto : srv.answer fs.shape toDirid = some toDir)
    (hdst : childPath srv.root toDir toFilename = .ok dst)
    (hmoved : Syscall.Moved src dst fs r stack n i stack' n' old) :
    ¬ fs.shape.Inside i e := by
  intro hinside
  obtain ⟨hi, p, hroot⟩ := h.root_eq_of_inside hmoved hinside
  have habove : NamesAbove fs.shape srv fromDirid fromFilename := by
    refine ⟨src, hsrc, i, toOption_eq_some_iff.mpr (find_of_moved hmoved), stack.path ++ [n], ?_, hi⟩
    rw [List.mem_inits, hroot]
    exact List.prefix_append _ _
  have hgood : Good true toDir fs.shape srv.root :=
    ⟨h.below toDirid toDir (PassthroughFs.answer_spec hto).1, hspares habove toDir hto⟩
  exact h.rename_moves (h.below_target hsrc) (hgood.child hdst) hmoved hinside

end Rename

end Rooted

/-! ## Operations -/

section Operations

variable {root : Path} {e : Inode}

theorem register_rooted (p : Path) :
    Triple (On fun s srv => Rooted root e s srv ∧ srv.root <+: p) (register p)
      (fun _ => On (Rooted root e)) (On (Rooted root e)) :=
  register_on (fun _ _ i h _ => h.1.note h.2 i.fileid) fun _ _ h _ => h.1

/-- From a directory handle and a name to a path below the root. -/
theorem named_rooted {α : Type} {dirid : FileId} {name : Bytes} {body : Path → Server α}
    (hbody : ∀ q, Triple (On fun s srv => Rooted root e s srv ∧ srv.root <+: q) (body q)
      (fun _ => On (Rooted root e)) (On (Rooted root e))) :
    Still (Rooted root e) (pathOf dirid >>= fun dir => child dir name >>= body) :=
  resolved_on (Rooted.lasting root e) (fun q => (hbody q).pre fun _ h => ⟨h.1, h.1.below_target h.2⟩)
    fun _ _ h => h

theorem lookup_rooted (dirid : FileId) (filename : Bytes) :
    Still (Rooted root e) (lookup dirid filename) :=
  named_rooted fun q => .bind (register_rooted q) fun _ => .pure fun _ h => h

/-- A call that binds a new name at `q`, and the registration of it. -/
theorem binds_rooted {call : Syscall Unit} {q : Path}
    (hcall : ∀ fs srv r, Rooted root e fs.shape srv → call fs = .ok r → Rooted root e r.fs.shape srv) :
    Triple (On fun s srv => Rooted root e s srv ∧ srv.root <+: q) (syscall call)
      (fun _ => On fun s srv => Rooted root e s srv ∧ srv.root <+: q) (On (Rooted root e)) := by
  refine .fail (syscall_on (B := fun _ s srv => Rooted root e s srv ∧ srv.root <+: q) ?_) fun _ h => h.1
  rintro fs srv r ⟨hrooted, hbelow⟩ hr
  exact ⟨hcall fs srv r hrooted hr, hbelow⟩

theorem makeNode_rooted {node : Node} (hnode : node.Bare) {fresh : Fresh}
    {call : Path → Syscall Unit}
    (hcall : ∀ p fs r, call p fs = .ok r → ∃ stack n, Syscall.Made node fresh false p fs r stack n)
    (dirid : FileId) (name : Bytes) : Still (Rooted root e) (makeNode call dirid name) := by
  refine named_rooted fun q => .bind (binds_rooted ?_) fun _ => register_rooted q
  intro fs srv r hrooted hr
  obtain ⟨stack, n, hmade⟩ := hcall q fs r hr
  exact hrooted.made hnode hmade

theorem mkdir_rooted (k : Kernel) (dirid : FileId) (dirname : Bytes) :
    Still (Rooted root e) (mkdir k dirid dirname) :=
  .bind (makeNode_rooted Node.bare_dir (mkdir_made k.fresh) dirid dirname) fun _ => .pure _

theorem createExclusive_rooted (k : Kernel) (dirid : FileId) (filename : Bytes) :
    Still (Rooted root e) (createExclusive k dirid filename) :=
  .bind (makeNode_rooted Node.bare_file (createNew_made k.fresh) dirid filename) fun _ => .pure _

theorem symlink_rooted (k : Kernel) (dirid : FileId) (linkname target : Bytes) :
    Still (Rooted root e) (symlink k dirid linkname target) :=
  .bind (makeNode_rooted (Node.bare_symlink target) (fun _ _ _ h => Syscall.symlink_ok h) dirid
    linkname) fun _ => .pure _

theorem create_rooted (k : Kernel) (dirid : FileId) (filename : Bytes) (attr : Sattr) :
    Still (Rooted root e) (create k dirid filename attr) := by
  refine named_rooted fun q => .bind (binds_rooted ?_) fun _ => ?_
  · intro fs srv r hrooted hr
    rcases Syscall.create_ok hr with ⟨i, -, rfl⟩ | ⟨stack, n, hmade⟩
    · exact hrooted
    · exact hrooted.made Node.bare_file hmade
  · refine .bind (.fail (Still.attempt (pathSetattr_still k.now attr q)) fun _ h => h.1) fun _ => ?_
    exact .bind (register_rooted q) fun _ => .pure fun _ h => h

theorem link_rooted (id dirid : FileId) (linkname : Bytes) :
    Still (Rooted root e) (link id dirid linkname) := by
  refine .bind (pathOf_still (Rooted.lasting root e) id) fun existing => ?_
  refine named_rooted fun q => .bind (binds_rooted ?_) fun _ => ?_
  · intro fs srv r hrooted hr
    obtain ⟨i, stack, n, hlinked⟩ := Syscall.hardLink_ok hr
    exact hrooted.linked hlinked
  · exact .bind (register_rooted q) fun _ => .pure fun _ h => h

/-- What was made is handed over, and its attributes are read. -/
theorem handover_rooted (id dirid : FileId) (cred : UnixCred) :
    Still (Rooted root e) (do
      chownNew id dirid cred
      return (id, ← getattr id)) := by
  refine .bind (chownNew_still (Rooted.lasting root e) id dirid cred) fun _ => ?_
  exact .bind (getattr_still (Rooted.lasting root e) id) fun _ => .pure _

theorem createExclusiveWithCred_rooted (k : Kernel) (dirid : FileId) (filename : Bytes)
    (cred : UnixCred) : Still (Rooted root e) (createExclusiveWithCred k dirid filename cred) := by
  refine .bind (createExclusive_rooted k dirid filename) fun id => ?_
  exact .bind (chownNew_still (Rooted.lasting root e) id dirid cred) fun _ => .pure _

theorem remove_rooted (dirid : FileId) (filename : Bytes) :
    Triple (On fun s srv => Rooted root e s srv ∧ (NfsOp.remove dirid filename).SparesRoot s srv)
      (remove dirid filename) (fun _ => On (Rooted root e)) (On (Rooted root e)) := by
  have hlasting : Lasting fun s srv =>
      Rooted root e s srv ∧ (NfsOp.remove dirid filename).SparesRoot s srv := by
    refine (Rooted.lasting root e).and ?_
    intro s srv srv' htrims h hanswer hspecial
    rw [htrims.answer_eq, htrims.root] at hanswer
    unfold RootFilled
    rw [htrims.root]
    exact h hanswer hspecial
  refine resolved_on hlasting (fun path => ?_) fun _ _ h => h.1
  have hremoved : ∀ (call : Syscall Unit) (id : FileId),
      (∀ fs r, call fs = .ok r → ∃ stack n i, Syscall.Removed path fs r stack n i) →
      Triple (On fun s srv => (Rooted root e s srv ∧ (NfsOp.remove dirid filename).SparesRoot s srv) ∧
          srv.target s dirid filename = some path)
        (do
          syscall call
          forgetPath id path)
        (fun _ => On (Rooted root e)) (On (Rooted root e)) := by
    intro call id hcall
    refine .bind (.fail (syscall_on (B := fun _ => Rooted root e) ?_) fun _ h => h.1.1) fun _ =>
      .modify fun w h => Rooted.forget h id path
    rintro fs srv r ⟨⟨hrooted, hspares⟩, hpath⟩ hr
    obtain ⟨stack, n, i, hremoved⟩ := hcall fs r hr
    exact hrooted.removed hremoved (hrooted.remove_spares hspares hpath hremoved)
  refine .bind (.fail (Syscall.lstat_quiet path).still fun _ h => h.1.1) fun m => ?_
  split
  · exact hremoved _ _ fun _ _ h => Syscall.rmdir_ok h
  · exact hremoved _ _ fun _ _ h => Syscall.unlink_ok h

theorem rename_rooted (fromDirid : FileId) (fromFilename : Bytes) (toDirid : FileId)
    (toFilename : Bytes) :
    Triple (On fun s srv => Rooted root e s srv ∧
        (NfsOp.rename fromDirid fromFilename toDirid toFilename).SparesRoot s srv)
      (rename fromDirid fromFilename toDirid toFilename) (fun _ => On (Rooted root e))
      (On (Rooted root e)) := by
  have hlasting : Lasting fun s srv => Rooted root e s srv ∧
      (NfsOp.rename fromDirid fromFilename toDirid toFilename).SparesRoot s srv := by
    refine (Rooted.lasting root e).and ?_
    intro s srv srv' htrims h habove p hp
    unfold NamesAbove at habove
    rw [htrims.target_eq, htrims.root] at habove
    rw [htrims.answer_eq] at hp
    exact h habove p hp
  refine .bind (.fail (pathOf_on hlasting fromDirid) fun _ h => h.1) fun fromDir => ?_
  refine .bind (.fail (pathOf_on (hlasting.and (.answer fromDirid (some fromDir))) toDirid)
    fun _ h => h.1.1) fun toDir => ?_
  refine .bind (.fail (child_on fromDir fromFilename) fun _ h => h.1.1.1) fun src => ?_
  refine .bind (.fail (child_on toDir toFilename) fun _ h => h.1.1.1.1) fun dst => ?_
  refine .bind (.fail (syscall_on (B := fun _ s srv => Rooted root e s srv ∧ srv.root <+: dst) ?_)
    fun _ h => h.1.1.1.1.1) fun _ => ?_
  · rintro fs srv r ⟨⟨⟨⟨⟨hrooted, hspares⟩, hfrom⟩, hto⟩, hsrc⟩, hdst⟩ hr
    refine ⟨?_, hrooted.below_target (Option.bind_eq_some_iff.mpr ⟨toDir, hto, hdst⟩)⟩
    rcases Syscall.rename_ok hr with ⟨_, _, _, _, _, -, -, rfl⟩ | ⟨_, _, _, _, _, _, hmoved⟩
    · exact hrooted
    · have htarget : srv.target fs.shape fromDirid fromFilename = some src :=
        Option.bind_eq_some_iff.mpr ⟨fromDir, hfrom, hsrc⟩
      have habove := hrooted.rename_spares hspares htarget hto (toOption_eq_some_iff.mp hdst) hmoved
      exact hrooted.moved hmoved habove (hrooted.rename_replaces (hrooted.below_target htarget) hmoved)
  · refine .bind (register_rooted dst).attempt fun r => ?_
    cases r with
    | ok _ => exact .pure fun _ h => h
    | error _ => exact .pure fun _ h => h

theorem listEntries_rooted (maxEntries : Nat) (l : List (UInt64 × FileId × Path)) :
    Triple (On fun s srv => Rooted root e s srv ∧ ∀ x ∈ l, srv.root <+: x.2.2)
      (listEntries maxEntries l) (fun _ => On (Rooted root e)) (On (Rooted root e)) := by
  induction l generalizing maxEntries with
  | nil =>
    cases maxEntries with
    | zero => exact .pure fun _ h => h.1
    | succ _ => exact .pure fun _ h => h.1
  | cons x rest ih =>
    obtain ⟨cookie, id, path⟩ := x
    cases maxEntries with
    | zero => exact .pure fun _ h => h.1
    | succ maxEntries =>
      refine .bind (.fail (Syscall.lstat_quiet path).still fun _ h => h.1) fun m => ?_
      refine .bind (Q := fun _ => On fun s srv => Rooted root e s srv ∧ ∀ x ∈ rest, srv.root <+: x.2.2)
        (.modify ?_) fun _ => .bind (ih maxEntries) fun _ => .pure fun _ h => h
      rintro w ⟨hrooted, hbelow⟩
      refine ⟨hrooted.note (hbelow _ List.mem_cons_self) id, fun x hx => ?_⟩
      show (w.server.note id path).root <+: x.2.2
      rw [PassthroughFs.note_root]
      exact hbelow x (List.mem_cons_of_mem _ hx)

theorem readdir_rooted (sha : Bytes → UInt64) (dirid startAfter : FileId) (maxEntries : Nat) :
    Still (Rooted root e) (readdir sha dirid startAfter maxEntries) := by
  refine Triple.bind (pathOf_on (Rooted.lasting root e) dirid) fun dir => ?_
  refine .pre (P := On fun s srv => Rooted root e s srv ∧ srv.root <+: dir) ?_ ?_
  · refine .bind (.fail (Syscall.lstat_quiet dir).still fun _ h => h.1) fun dmeta => ?_
    split
    · exact .bind (.throw (Q := fun _ _ => False) fun _ h => h.1) fun _ _ h => h.elim
    · refine .bind (.fail (syscall_on (B := fun _ s srv => Rooted root e s srv ∧ srv.root <+: dir) ?_)
        fun _ h => h.1) fun entries => ?_
      · intro fs srv r h hr
        obtain ⟨d, -, -, rfl⟩ := Syscall.readDir_ok hr
        exact h
      · refine .bind (.pre (listEntries_rooted maxEntries _) ?_) fun _ => .pure fun _ h => h
        rintro w ⟨hrooted, hbelow⟩
        refine ⟨hrooted, fun x hx => ?_⟩
        obtain ⟨m, -, hpath, -⟩ := mem_withCookies (List.mem_of_mem_drop hx)
        rw [hpath]
        exact hbelow.trans (List.prefix_append _ _)
  · rintro w ⟨hrooted, hdir⟩
    exact ⟨hrooted, hrooted.below dirid dir (PassthroughFs.answer_spec hdir).1⟩

end Operations

/-! ## Runs -/

/-- One operation, whether it succeeds or fails. -/
theorem exec_rooted {root : Path} {e : Inode} (sha : Bytes → UInt64) (k : Kernel) (op : NfsOp) :
    Triple (On fun s srv => Rooted root e s srv ∧ op.SparesRoot s srv) (op.exec sha k)
      (fun _ => On (Rooted root e)) (On (Rooted root e)) := by
  have hlasting := Rooted.lasting root e
  have hstill : ∀ {α : Type} {f : α → NfsReply} {x : Server α}, Still (Rooted root e) x →
      Triple (On fun s srv => Rooted root e s srv ∧ op.SparesRoot s srv) (f <$> x)
        (fun _ => On (Rooted root e)) (On (Rooted root e)) :=
    fun h => .map (Triple.pre h fun _ h => h.1)
  cases op with
  | lookup dirid filename => exact hstill (lookup_rooted dirid filename)
  | getattr id => exact hstill (getattr_still hlasting id)
  | setattr id attr => exact hstill (setattr_still hlasting k.now id attr)
  | read id offset count => exact hstill (read_still hlasting id offset count)
  | write id offset data stable => exact hstill (writeStable_still hlasting id offset data stable)
  | commit id => exact hstill (commit_still hlasting id)
  | create dirid filename attr => exact hstill (create_rooted k dirid filename attr)
  | createExclusive dirid filename => exact hstill (createExclusive_rooted k dirid filename)
  | mkdir dirid dirname => exact hstill (mkdir_rooted k dirid dirname)
  | createWithCred dirid filename attr cred =>
    exact hstill (.bind (create_rooted k dirid filename attr) fun r =>
      handover_rooted r.1 dirid cred)
  | createExclusiveWithCred dirid filename cred =>
    exact hstill (createExclusiveWithCred_rooted k dirid filename cred)
  | mkdirWithCred dirid dirname cred =>
    exact hstill (.bind (mkdir_rooted k dirid dirname) fun r => handover_rooted r.1 dirid cred)
  | remove dirid filename => exact .map (remove_rooted dirid filename)
  | rename fromDirid fromFilename toDirid toFilename =>
    exact .map (rename_rooted fromDirid fromFilename toDirid toFilename)
  | readdir dirid startAfter maxEntries =>
    exact hstill (readdir_rooted sha dirid startAfter maxEntries)
  | symlink dirid linkname target => exact hstill (symlink_rooted k dirid linkname target)
  | readlink id => exact hstill (readlink_still hlasting id)
  | link id dirid linkname => exact hstill (link_rooted id dirid linkname)

theorem Rooted.step {root : Path} {e : Inode} {sha : Bytes → UInt64} {w w' : World} {a : NfsAct}
    (hw : On (Rooted root e) w) (ha : a.op.SparesRoot w.fs.shape w.server)
    (hstep : nfsStep sha w a = some w') : On (Rooted root e) w' := by
  have hrun := @exec_rooted root e sha a.kernel a.op
  unfold nfsStep at hstep
  split at hstep
  · next hexec =>
    cases hstep
    exact hrun.ok ⟨hw, ha⟩ hexec
  · next hexec =>
    cases hstep
    exact hrun.error ⟨hw, ha⟩ hexec

theorem Rooted.new {fs : FileSys} (htree : fs.shape.WellFormed) {root : List Comp}
    {server : PassthroughFs} (hnew : PassthroughFs.new fs root = .ok server) {e : Inode}
    (he : fs.shape.find false server.root = .ok e) (hdir : fs.shape.isDir e = true) :
    On (Rooted server.root e) ⟨server, fs, []⟩ := by
  obtain ⟨e', he', hexport⟩ := Export.new htree hnew
  cases he.symm.trans he'
  exact ⟨htree, rfl, hexport.rooted, hdir, hexport.below⟩

/-- In a run that removes the root under a special name only while the export is not empty, and that
renames the root, or a directory above it, only to directories reached without a link, the root of the
export is the directory that it was, under the path that it had. -/
theorem root_stays (sha : Bytes → UInt64) {fs : FileSys} (htree : fs.shape.WellFormed)
    {root : List Comp} {server : PassthroughFs} (hnew : PassthroughFs.new fs root = .ok server)
    {e : Inode} (he : fs.shape.find false server.root = .ok e) (hdir : fs.shape.isDir e = true)
    {acts : List NfsAct} {w : World}
    (hrun : Run (nfsStep sha) (fun w a => a.op.SparesRoot w.fs.shape w.server) ⟨server, fs, []⟩
      acts w) :
    w.fs.shape.find false server.root = .ok e ∧ w.fs.shape.isDir e = true := by
  have hend : On (Rooted server.root e) w :=
    hrun.keeps (I := On (Rooted server.root e)) (fun ha hw hstep => Rooted.step hw ha hstep)
      (Rooted.new htree hnew he hdir)
  refine ⟨?_, hend.dir⟩
  have hfind := hend.find_root
  rwa [hend.path] at hfind

/-- A client tries to remove the root of an export that has a directory in it, and to move it there.
-/
def againstRoot : List NfsAct :=
  [⟨kernelOf 5, .mkdir (Inode.fileid ⟨1, 2⟩) [100]⟩,
    ⟨kernelOf 6, .remove (Inode.fileid ⟨1, 2⟩) [46]⟩,
    ⟨kernelOf 6, .remove (Inode.fileid ⟨1, 5⟩) [46, 46]⟩,
    ⟨kernelOf 6, .rename (Inode.fileid ⟨1, 2⟩) [] (Inode.fileid ⟨1, 5⟩) [120]⟩,
    ⟨kernelOf 6, .rename (Inode.fileid ⟨1, 5⟩) [46] (Inode.fileid ⟨1, 2⟩) [46, 46]⟩]

theorem root_stays_againstRoot :
    ∃ w, Run (nfsStep fun _ => 0) (fun w a => a.op.SparesRoot w.fs.shape w.server)
        ⟨exported, siblings, []⟩ againstRoot w ∧
      w.fs.shape.find false exported.root = .ok ⟨1, 2⟩ ∧ w.fs.shape.isDir ⟨1, 2⟩ = true := by
  obtain ⟨w, hw, -⟩ : ∃ w, run (nfsStep fun _ => 0)
      (fun w a => a.op.SparesRoot w.fs.shape w.server) ⟨exported, siblings, []⟩ againstRoot =
        some w ∧ True := run_exists (by decide +kernel)
  exact ⟨w, run_sound hw, root_stays (fun _ => 0) siblings_wellFormed exported_new
    (by decide +kernel) (by decide +kernel) (run_sound hw)⟩

/-- The name `l`. -/
def linkName : Name := ⟨[108], by decide⟩

/-- `/e` with a link to `/` in it. -/
def linkedUp : FileSys :=
  { siblings with shape := siblings.shape.add ⟨1, 2⟩ linkName ⟨1, 5⟩ (.symlink [47]) }

theorem linkedUp_wellFormed : linkedUp.shape.WellFormed := by
  have hdir : siblings.shape.isDir ⟨1, 2⟩ = true := by decide +kernel
  have hunused : (⟨1, 5⟩ : Inode) ∉ siblings.shape.nodes := by decide +kernel
  exact Shape.wellFormed_add hdir hunused siblings_wellFormed (Node.bare_symlink _) linkName

/-- One call removes the root of an empty export. Where a link leads out of the export, a rename of
the link gives its handle away and a second one moves the root to where the link leads. -/
theorem root_lost :
    (∃ w, siblings.shape.WellFormed ∧ PassthroughFs.new siblings [.name exportName] = .ok exported ∧
        Run (nfsStep fun _ => 0) (fun _ _ => True) ⟨exported, siblings, []⟩
          [⟨kernelOf 5, .remove (Inode.fileid ⟨1, 2⟩) [46]⟩] w ∧
        w.fs.shape.find false exported.root = .error .notFound) ∧
      ∃ w, linkedUp.shape.WellFormed ∧ PassthroughFs.new linkedUp [.name exportName] = .ok exported ∧
        Run (nfsStep fun _ => 0) (fun _ _ => True) ⟨exported, linkedUp, []⟩
          [⟨kernelOf 6, .rename (Inode.fileid ⟨1, 2⟩) [108] (Inode.fileid ⟨1, 2⟩) [109]⟩,
            ⟨kernelOf 6, .rename (Inode.fileid ⟨1, 2⟩) [46] (Inode.fileid ⟨1, 5⟩) [120]⟩] w ∧
        w.fs.shape.find false exported.root = .error .notFound := by
  obtain ⟨w, hw, hgone⟩ : ∃ w, run (nfsStep fun _ => 0) (fun _ _ => True) ⟨exported, siblings, []⟩
      [⟨kernelOf 5, .remove (Inode.fileid ⟨1, 2⟩) [46]⟩] = some w ∧
        w.fs.shape.find false exported.root = .error .notFound := run_exists (by decide +kernel)
  obtain ⟨w', hw', hmoved⟩ : ∃ w, run (nfsStep fun _ => 0) (fun _ _ => True)
      ⟨exported, linkedUp, []⟩
      [⟨kernelOf 6, .rename (Inode.fileid ⟨1, 2⟩) [108] (Inode.fileid ⟨1, 2⟩) [109]⟩,
        ⟨kernelOf 6, .rename (Inode.fileid ⟨1, 2⟩) [46] (Inode.fileid ⟨1, 5⟩) [120]⟩] = some w ∧
        w.fs.shape.find false exported.root = .error .notFound := run_exists (by decide +kernel)
  exact ⟨⟨w, siblings_wellFormed, exported_new, run_sound hw, hgone⟩,
    w', linkedUp_wellFormed, rfl, run_sound hw', hmoved⟩

end NessieStore.Nfs
