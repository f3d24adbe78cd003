import NessieStore.Nfs.Passthrough

/-!
# Staying inside an export

What keeps an operation inside the subtree of the exported root `e`: the tree is one, the root's path
still leads to `e`, every path of the table continues the root's path, and every system call so far
was confined (`Export`). A call on a path that continues the root's path and meets no link keeps this:
what it touches is below `e`, and what it edits is, so the way to `e` is left alone.

The rules at the end are triples over assertions on the tree and the server that `path_of` leaves true
(`Stable`): they are what the operations are put together from.
-/

set_option autoImplicit false

namespace NessieStore.Nfs

open Lib

/-- What a call touched lies in the subtree of `e`: before the call, or, for what the call made, after
it. -/
def Access.Confined (e : Inode) (a : Access) : Prop :=
  ∀ i ∈ a.touched, if i ∈ a.before.nodes then a.before.Inside e i else a.after.Inside e i

structure Export (e : Inode) (w : World) : Prop where
  tree : w.fs.shape.WellFormed
  rooted : w.fs.shape.leads w.fs.shape.root w.server.root = some e
  below : ∀ id, ∀ p ∈ w.server.stored id, w.server.root <+: p
  log : ∀ a ∈ w.log, a.Confined e

/-- The path continues the root's, and a walk along it meets no link. -/
structure Good (follow : Bool) (p : Path) (s : Shape) (root : Path) : Prop where
  below : root <+: p
  straight : s.straight follow s.root p = true

theorem Good.mono {follow : Bool} {p root : Path} {s : Shape} (h : Good true p s root) :
    Good follow p s root :=
  ⟨h.below, Shape.straight_mono h.straight⟩

/-- What is reached along a continuation of the root's path is inside. -/
theorem inside_of_leads {s : Shape} {root p : Path} {e i : Inode}
    (hroot : s.leads s.root root = some e) (hp : root <+: p) (hi : s.leads s.root p = some i) :
    s.Inside e i := by
  obtain ⟨c, rfl⟩ := hp
  obtain ⟨e', he', hc⟩ := descend_append_eq_some.mp hi
  cases hroot.symm.trans he'
  exact ⟨c, hc⟩

namespace Export

variable {e : Inode} {w : World}

theorem inside_of_find (h : Export e w) {follow : Bool} {p : Path} {i : Inode}
    (hp : Good follow p w.fs.shape w.server.root) (hi : w.fs.shape.find follow p = .ok i) :
    w.fs.shape.Inside e i :=
  inside_of_leads h.rooted hp.below (Shape.leads_of_find hp.straight hi)

/-- Where a good path ends: at the root of the export, or in a directory inside it. -/
theorem located (h : Export e w) {follow : Bool} {p : Path} {stack : Stack} {n : Name}
    {i : Option Inode} (hp : Good follow p w.fs.shape w.server.root)
    (hl : w.fs.shape.locate follow p = .ok (.entry stack n i)) :
    ∃ q, p = q ++ [n] ∧ w.fs.shape.climb [] q = some stack ∧
      i = w.fs.shape.entry (w.fs.shape.top stack) n ∧
      (p = w.server.root ∧ i = some e ∨
        w.server.root <+: q ∧ w.fs.shape.Inside e (w.fs.shape.top stack)) := by
  rcases Shape.locate_straight hp.straight hl with ⟨-, heq⟩ | ⟨q, m, st, rfl, hst, heq⟩
  · cases heq
  · cases heq
    refine ⟨q, rfl, hst, rfl, ?_⟩
    have hq : w.fs.shape.leads w.fs.shape.root q = some (w.fs.shape.top stack) :=
      Shape.leads_of_climb hst
    rcases List.prefix_concat_iff.mp hp.below with heq | hbelow
    · refine .inl ⟨heq.symm, ?_⟩
      obtain ⟨c, hc, hn⟩ := descend_concat_eq_some.mp (heq ▸ h.rooted)
      cases hq.symm.trans hc
      exact hn
    · exact .inr ⟨hbelow, inside_of_leads h.rooted hbelow hq⟩

end Export

/-- What a system call leaves true. -/
structure Keeps {α : Type} (e : Inode) (w : World) (r : Done α) : Prop where
  tree : r.fs.shape.WellFormed
  rooted : r.fs.shape.leads r.fs.shape.root w.server.root = some e
  confined : Access.Confined e ⟨w.fs.shape, r.touched, r.fs.shape⟩

namespace Keeps

variable {α : Type} {e : Inode} {w : World}

/-- A call that leaves the names alone. -/
theorem look (h : Export e w) {r : Done α} (hshape : r.fs.shape = w.fs.shape)
    (htouched : ∀ i ∈ r.touched, w.fs.shape.Inside e i) : Keeps e w r := by
  refine ⟨?_, ?_, ?_⟩
  · rw [hshape]
    exact h.tree
  · rw [hshape]
    exact h.rooted
  · intro i hi
    dsimp only at hi ⊢
    rw [hshape]
    split <;> exact htouched i hi

theorem edit (h : Export e w) {r : Done α} {ds : List Inode}
    (hedit : w.fs.shape.Edit ds r.fs.shape) (hds : ∀ d ∈ ds, w.fs.shape.Inside e d)
    (hconfined : Access.Confined e ⟨w.fs.shape, r.touched, r.fs.shape⟩) : Keeps e w r :=
  ⟨hedit.wellFormed h.tree, hedit.leads_keep h.tree h.rooted hds, hconfined⟩

/-- A call that touched only what was inside. -/
theorem edit_inside (h : Export e w) {r : Done α} {ds : List Inode}
    (hedit : w.fs.shape.Edit ds r.fs.shape) (hds : ∀ d ∈ ds, w.fs.shape.Inside e d)
    (hmem : ∀ i ∈ r.touched, i ∈ w.fs.shape.nodes)
    (hinside : ∀ i ∈ r.touched, w.fs.shape.Inside e i) : Keeps e w r := by
  refine edit h hedit hds ?_
  intro i hi
  rw [if_pos (hmem i hi)]
  exact hinside i hi

end Keeps

section Calls

variable {e : Inode} {w : World}

/-- The directory that a good path ends in, after an edit of it. -/
theorem leads_parent {s s' : Shape} (h : s.WellFormed) {q : Path} {stack : Stack}
    (hst : s.climb [] q = some stack) (hedit : s.Edit [s.top stack] s') :
    s'.leads s'.root q = some (s.top stack) := by
  refine hedit.leads_keep h (Shape.leads_of_climb hst) ?_
  intro d hd
  rw [List.mem_singleton.mp hd]
  exact ⟨[], rfl⟩

/-- A path whose directory leads somewhere, and whose name is bound, is good. -/
theorem good_concat {s : Shape} {root q : Path} {n : Name} {d i : Inode} (hroot : root <+: q)
    (hd : s.leads s.root q = some d) (hi : s.entry d n = some i) : Good false (q ++ [n]) s root :=
  ⟨hroot.trans (List.prefix_append q [n]),
    Shape.straight_concat
      (Shape.straight_true_of_leads hd (Shape.linkTarget_of_isDir (Shape.isDir_of_entry hi))) n⟩

/-- What a good path names after a node was made there. -/
structure Fits (node : Node) (i : Inode) (p : Path) (s : Shape) (root : Path) : Prop where
  good : Good false p s root
  leads : s.leads s.root p = some i
  plain : (∀ target, node ≠ .symlink target) → Good true p s root

theorem Syscall.Made.keeps {node : Node} {fresh : Fresh} {follow : Bool} {p : Path} {r : Done Unit}
    {stack : Stack} {n : Name} (h : Syscall.Made node fresh follow p w.fs r stack n)
    (hnode : node.Bare) (hw : Export e w) (hp : Good follow p w.fs.shape w.server.root) :
    Keeps e w r ∧ Fits node fresh.inode p r.fs.shape w.server.root := by
  obtain ⟨q, rfl, hst, hfree, ⟨-, hsome⟩ | ⟨hroot, hinside⟩⟩ := hw.located hp h.located
  · cases hsome
  obtain ⟨-, hdir, -⟩ := Shape.locate_landed h.located
  have hedit := h.edit hnode
  have hds : ∀ d ∈ [w.fs.shape.top stack], w.fs.shape.Inside e d := by
    intro d hd
    rw [List.mem_singleton.mp hd]
    exact hinside
  have hrooted := hedit.leads_keep hw.tree hw.rooted hds
  have hparent := leads_parent hw.tree hst hedit
  have hentry := (h.binds hnode).here
  have hleads : r.fs.shape.leads r.fs.shape.root (q ++ [n]) = some fresh.inode :=
    descend_concat_eq_some.mpr ⟨_, hparent, hentry⟩
  have hgood := good_concat hroot hparent hentry
  refine ⟨.edit hw hedit hds ?_, hgood, hleads, ?_⟩
  · intro i hi
    dsimp only at hi ⊢
    rw [h.touched, List.mem_cons, List.mem_singleton] at hi
    rcases hi with rfl | rfl
    · rw [if_pos (Shape.mem_of_isDir hdir)]
      exact hinside
    · rw [if_neg h.unused]
      exact inside_of_leads hrooted hgood.below hleads
  · intro hplain
    refine ⟨hgood.below, Shape.straight_true_of_leads hleads ?_⟩
    rw [h.shape]
    exact Shape.linkTarget_add_new hdir h.unused n hplain

theorem Syscall.Linked.keeps {existing p : Path} {r : Done Unit} {i : Inode} {stack : Stack} {n : Name}
    (h : Syscall.Linked existing p w.fs r i stack n) (hw : Export e w)
    (hexisting : Good false existing w.fs.shape w.server.root)
    (hp : Good false p w.fs.shape w.server.root) :
    Keeps e w r ∧ Good false p r.fs.shape w.server.root := by
  obtain ⟨q, rfl, hst, hfree, ⟨-, hsome⟩ | ⟨hroot, hinside⟩⟩ := hw.located hp h.located
  · cases hsome
  obtain ⟨-, hdir, -⟩ := Shape.locate_landed h.located
  have hi := Shape.leads_of_find hexisting.straight h.found
  have hmem : i ∈ w.fs.shape.nodes := hw.tree.mem_of_leads (Shape.mem_of_isDir hw.tree.rootDir) hi
  have hedit := h.edit hmem
  refine ⟨.edit_inside hw hedit ?_ ?_ ?_,
    good_concat hroot (leads_parent hw.tree hst hedit) h.binds.here⟩
  · intro d hd
    rw [List.mem_singleton.mp hd]
    exact hinside
  · rw [h.touched]
    exact List.forall_mem_cons.mpr ⟨hmem, List.forall_mem_singleton.mpr (Shape.mem_of_isDir hdir)⟩
  · rw [h.touched]
    exact List.forall_mem_cons.mpr
      ⟨hw.inside_of_find hexisting h.found, List.forall_mem_singleton.mpr hinside⟩

theorem Syscall.Removed.keeps {p : Path} {r : Done Unit} {stack : Stack} {n : Name} {i : Inode}
    (h : Syscall.Removed p w.fs r stack n i) (hw : Export e w)
    (hp : Good false p w.fs.shape w.server.root) (hne : p ≠ w.server.root) : Keeps e w r := by
  obtain ⟨q, rfl, hst, hentry, ⟨heq, -⟩ | ⟨hroot, hinside⟩⟩ := hw.located hp h.located
  · exact absurd heq hne
  have hleads : w.fs.shape.leads w.fs.shape.root (q ++ [n]) = some i :=
    descend_concat_eq_some.mpr ⟨_, Shape.leads_of_climb hst, hentry.symm⟩
  refine .edit_inside hw h.edit ?_ ?_ ?_
  · intro d hd
    rw [List.mem_singleton.mp hd]
    exact hinside
  · rw [h.touched]
    exact List.forall_mem_cons.mpr ⟨Shape.mem_of_isDir (Shape.isDir_of_entry hentry.symm),
      List.forall_mem_singleton.mpr (hw.tree.closed _ _ _ hentry.symm)⟩
  · rw [h.touched]
    exact List.forall_mem_cons.mpr
      ⟨hinside, List.forall_mem_singleton.mpr (inside_of_leads hw.rooted hp.below hleads)⟩

/-- The way to the directory that a name is moved to does not change: the moved inode is not on it. -/
theorem Syscall.Moved.leads_target {src dst : Path} {r : Done Unit} {stack : Stack} {n : Name}
    {i : Inode} {stack' : Stack} {n' : Name} {old : Option Inode} {fs : FileSys}
    (h : Syscall.Moved src dst fs r stack n i stack' n' old) (htree : fs.shape.WellFormed) {q : Path}
    (hq : fs.shape.climb [] q = some stack') :
    r.fs.shape.leads r.fs.shape.root q = some (fs.shape.top stack') ∧
      r.fs.shape.entry (fs.shape.top stack') n' = some i := by
  obtain ⟨-, -, hentry⟩ := Shape.locate_landed h.source
  obtain ⟨-, hdir, -⟩ := Shape.locate_landed h.target
  refine ⟨?_, by rw [h.entry_eq, if_pos ⟨rfl, rfl⟩]⟩
  have hleads : fs.shape.leads fs.shape.root q = some (fs.shape.top stack') :=
    Shape.leads_of_climb hq
  rw [h.edit.root_eq]
  refine descend_kept hleads ?_
  intro p m rest c j hsplit hc hj
  rw [h.entry_eq, if_neg, if_neg]
  · exact hj
  · -- the path would go through the inode that is moved
    rintro ⟨rfl, rfl⟩
    cases hentry.trans hj
    rw [hsplit] at hq
    exact h.above (Shape.mem_climb hq (descend_concat_eq_some.mpr ⟨_, hc, hj⟩))
  · -- the path would go through its own end
    rintro ⟨rfl, rfl⟩
    have heq := htree.forest.descend_inj hdir hc hleads
    have hlen := congrArg List.length hsplit
    rw [heq] at hlen
    simp only [List.length_append, List.length_cons] at hlen
    omega

/-- A path that continues the root's goes through the root. -/
theorem mem_stack_of_below (hw : Export e w) {q : Path} {stack : Stack} {r : Path} {n : Name}
    (hroot : w.server.root = r ++ [n]) (hq : w.server.root <+: q)
    (hst : w.fs.shape.climb [] q = some stack) : e ∈ stack.map Prod.snd := by
  obtain ⟨c, rfl⟩ := hq
  have hrooted : w.fs.shape.leads (w.fs.shape.top []) (r ++ [n]) = some e := hroot ▸ hw.rooted
  rw [hroot, List.append_assoc, List.singleton_append] at hst
  exact Shape.mem_climb hst hrooted

theorem Syscall.Moved.keeps {src dst : Path} {r : Done Unit} {stack : Stack} {n : Name} {i : Inode}
    {stack' : Stack} {n' : Name} {old : Option Inode}
    (h : Syscall.Moved src dst w.fs r stack n i stack' n' old) (hw : Export e w)
    (hsrc : Good false src w.fs.shape w.server.root) (hdst : Good false dst w.fs.shape w.server.root) :
    Keeps e w r ∧ Good false dst r.fs.shape w.server.root := by
  obtain ⟨q, rfl, hst, hentry, hplace⟩ := hw.located hsrc h.source
  obtain ⟨q', rfl, hst', hold, hplace'⟩ := hw.located hdst h.target
  -- neither name is the root's: it is above everything else that is named
  have hinside' : w.server.root <+: q' ∧ w.fs.shape.Inside e (w.fs.shape.top stack') := by
    rcases hplace' with ⟨hroot, hsome⟩ | hin
    · rcases hplace with ⟨hroot', hsome'⟩ | ⟨hroot', -⟩
      · cases hsome'
        exact absurd rfl (h.replaced e hsome).1
      · exact absurd (mem_stack_of_below hw hroot.symm hroot' hst) (h.beneath e hsome)
    · exact hin
  have hinside : w.server.root <+: q ∧ w.fs.shape.Inside e (w.fs.shape.top stack) := by
    rcases hplace with ⟨hroot, hsome⟩ | hin
    · cases hsome
      exact absurd (mem_stack_of_below hw hroot.symm hinside'.1 hst') h.above
    · exact hin
  have hi : w.fs.shape.leads w.fs.shape.root (q ++ [n]) = some i :=
    descend_concat_eq_some.mpr ⟨_, Shape.leads_of_climb hst, hentry.symm⟩
  have hdir := Shape.isDir_of_entry hentry.symm
  obtain ⟨-, hdir', -⟩ := Shape.locate_landed h.target
  obtain ⟨hparent, hbound⟩ := h.leads_target hw.tree hst'
  refine ⟨.edit_inside hw h.edit ?_ ?_ ?_, good_concat hinside'.1 hparent hbound⟩
  · exact List.forall_mem_cons.mpr ⟨hinside.2, List.forall_mem_singleton.mpr hinside'.2⟩
  · rw [h.touched]
    intro j hj
    simp only [List.cons_append, List.nil_append, List.mem_cons, Option.mem_toList] at hj
    rcases hj with rfl | rfl | rfl | hj
    · exact Shape.mem_of_isDir hdir
    · exact hw.tree.closed _ _ _ hentry.symm
    · exact Shape.mem_of_isDir hdir'
    · exact hw.tree.closed _ _ _ (hold.symm.trans hj)
  · rw [h.touched]
    intro j hj
    simp only [List.cons_append, List.nil_append, List.mem_cons, Option.mem_toList] at hj
    rcases hj with rfl | rfl | rfl | hj
    · exact hinside.2
    · exact inside_of_leads hw.rooted hsrc.below hi
    · exact hinside'.2
    · exact inside_of_leads hw.rooted hdst.below
        (descend_concat_eq_some.mpr ⟨_, Shape.leads_of_climb hst', hold.symm.trans hj⟩)

end Calls

end NessieStore.Nfs
