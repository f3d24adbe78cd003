import NessieStore.Nfs.Confined

/-!
# The names in the table of handles

The table has a path for every name that the server has made, listed or looked up, as long as the name
is there: `Table known` says it of the names in `known`, a name being a directory and what it calls an
entry of it, so that it stays the same name when a directory above it is moved. The paths lead where
they say without a link, which is what makes them the paths of these names.

`path_of` drops only paths that name nothing any more, or something else (`Trims`). A system call that
binds a name leaves the table behind by this one name until it is registered (`Due`). A name that is
freed takes nothing with it. A directory that is moved takes the names below it along, and their paths
do not follow: this is the one change that the table does not survive (`Table.moved`).
-/

set_option autoImplicit false

namespace NessieStore.Nfs

open Lib

/-! ## The paths of a handle -/

/-- The path names the inode of the handle. -/
def Shape.live (s : Shape) (id : FileId) (p : Path) : Bool :=
  match s.find false p with
  | .ok i => i.fileid = id
  | .error _ => false

theorem Shape.live_iff {s : Shape} {id : FileId} {p : Path} :
    s.live id p = true ↔ ∃ i, s.find false p = .ok i ∧ i.fileid = id := by
  unfold live
  cases s.find false p with
  | ok i => simp
  | error e => simp

theorem FileSys.isName_eq (fs : FileSys) (id : FileId) : fs.isName id = fs.shape.live id := by
  funext p
  rw [Bool.eq_iff_iff, FileSys.isName_iff, Shape.live_iff]

/-- The path that `path_of` answers with. -/
def PassthroughFs.answer (srv : PassthroughFs) (s : Shape) (id : FileId) : Option Path :=
  ((srv.stored id).filter (s.live id)).head?

/-- The path that a directory handle and a name come to. -/
def PassthroughFs.target (srv : PassthroughFs) (s : Shape) (dirid : FileId) (name : Bytes) :
    Option Path :=
  (srv.answer s dirid).bind fun p => (childPath srv.root p name).toOption

theorem PassthroughFs.answer_spec {srv : PassthroughFs} {s : Shape} {id : FileId} {p : Path}
    (h : srv.answer s id = some p) : p ∈ srv.stored id ∧ s.live id p = true :=
  List.mem_filter.mp (List.mem_of_mem_head? h)

/-- What `path_of` does to the table: the paths that name their inode stay, in their order. -/
structure Trims (s : Shape) (srv srv' : PassthroughFs) : Prop where
  root : srv'.root = srv.root
  stored : ∀ id p, p ∈ srv'.stored id → p ∈ srv.stored id
  live : ∀ id, (srv'.stored id).filter (s.live id) = (srv.stored id).filter (s.live id)

theorem Pruned.trims {id : FileId} {w w' : World} (h : Pruned id w w') :
    Trims w.fs.shape w.server w'.server := by
  refine ⟨h.root, fun _ _ => h.stored_subset, ?_⟩
  intro id'
  by_cases hid : id' = id
  · subst hid
    rw [h.kept, FileSys.isName_eq, List.filter_filter]
    simp only [Bool.and_self]
  · rw [h.others id' hid]

namespace Trims

variable {s : Shape} {srv srv' : PassthroughFs}

theorem answer_eq (h : Trims s srv srv') (id : FileId) : srv'.answer s id = srv.answer s id := by
  unfold PassthroughFs.answer
  rw [h.live]

theorem target_eq (h : Trims s srv srv') (dirid : FileId) (name : Bytes) :
    srv'.target s dirid name = srv.target s dirid name := by
  unfold PassthroughFs.target
  rw [h.answer_eq, h.root]

/-- A path that names the inode of its handle stays. -/
theorem kept (h : Trims s srv srv') {id : FileId} {p : Path} (hp : p ∈ srv.stored id)
    (hlive : s.live id p = true) : p ∈ srv'.stored id := by
  have hmem : p ∈ (srv'.stored id).filter (s.live id) := by
    rw [h.live]
    exact List.mem_filter.mpr ⟨hp, hlive⟩
  exact List.mem_of_mem_filter hmem

end Trims

/-! ## Names -/

/-- The name at the end of a path, if there is one. -/
def Shape.namesAt (s : Shape) (p : Path) : List (Inode × Name) :=
  match s.locate false p with
  | .ok (.entry stack n (some _)) => [(s.top stack, n)]
  | _ => []

/-- At the end of a path without a link there is the name that the path says. -/
theorem Shape.mem_namesAt {s : Shape} {p : Path} (hp : s.straight false s.root p = true) {d : Inode}
    {n : Name} (h : (d, n) ∈ s.namesAt p) :
    ∃ q i, p = q ++ [n] ∧ s.leads s.root q = some d ∧ s.entry d n = some i := by
  unfold namesAt at h
  split at h
  · next stack m i hl =>
    obtain ⟨rfl, rfl⟩ := Prod.mk.inj (List.mem_singleton.mp h)
    rcases Shape.locate_straight hp hl with ⟨-, heq⟩ | ⟨q, m, st, rfl, hst, heq⟩
    · cases heq
    · injection heq with hstack hname hi
      subst hstack hname
      exact ⟨q, i, rfl, Shape.leads_of_climb hst, hi.symm⟩
  · cases h

theorem Shape.namesAt_of_leads {s : Shape} {q : Path} {n : Name} {d i : Inode}
    (hq : s.leads s.root q = some d) (hi : s.entry d n = some i) :
    s.namesAt (q ++ [n]) = [(d, n)] := by
  have hleads : s.leads s.root (q ++ [n]) = some i := descend_concat_eq_some.mpr ⟨d, hq, hi⟩
  obtain ⟨l, hl, hfound⟩ := ok_of_bind (Shape.find_of_leads hleads)
  rcases Shape.locate_straight (Shape.straight_of_leads hleads) hl with
    ⟨hnil, -⟩ | ⟨q', m, st, heq, hst, rfl⟩
  · exact absurd hnil (List.append_ne_nil_of_right_ne_nil q (List.cons_ne_nil n []))
  · obtain ⟨rfl, hm⟩ := List.append_inj' heq rfl
    cases hm
    cases hq.symm.trans (Shape.leads_of_climb hst)
    unfold namesAt
    rw [hl, hi]

/-! ## The table -/

/-- The table has every name of `known` that is there and below the root. -/
structure Table (known : List (Inode × Name)) (s : Shape) (srv : PassthroughFs) : Prop where
  tree : s.WellFormed
  below : ∀ id, ∀ p ∈ srv.stored id, srv.root <+: p
  names : ∀ d n, (d, n) ∈ known → ∀ q i, s.leads s.root q = some d → srv.root <+: q →
    s.entry d n = some i → q ++ [n] ∈ srv.stored i.fileid

namespace Table

variable {known : List (Inode × Name)} {s s' : Shape} {srv srv' : PassthroughFs}

theorem mono {known' : List (Inode × Name)} (h : Table known s srv) (hsub : known' ⊆ known) :
    Table known' s srv :=
  ⟨h.tree, h.below, fun d n hdn => h.names d n (hsub hdn)⟩

theorem trims (h : Table known s srv) (htrims : Trims s srv srv') : Table known s srv' := by
  refine ⟨h.tree, ?_, ?_⟩
  · intro id p hp
    rw [htrims.root]
    exact h.below id p (htrims.stored id p hp)
  · intro d n hdn q i hq hroot hi
    rw [htrims.root] at hroot
    refine htrims.kept (h.names d n hdn q i hq hroot hi) ?_
    have hleads : s.leads s.root (q ++ [n]) = some i := descend_concat_eq_some.mpr ⟨d, hq, hi⟩
    exact Shape.live_iff.mpr ⟨i, Shape.find_of_leads hleads, rfl⟩

/-- A name is registered under the one path that leads to it. -/
theorem note (h : Table known s srv) {p : Path} (hroot : srv.root <+: p) {i : Inode}
    (hp : s.leads s.root p = some i) : Table (s.namesAt p ++ known) s (srv.note i.fileid p) := by
  refine ⟨h.tree, ?_, ?_⟩
  · intro id q hq
    rw [PassthroughFs.note_root]
    rcases PassthroughFs.mem_stored_note.mp hq with hold | ⟨-, rfl⟩
    · exact h.below id q hold
    · exact hroot
  · intro d n hdn q j hq hbelow hj
    rw [PassthroughFs.note_root] at hbelow
    rw [PassthroughFs.mem_stored_note]
    rcases List.mem_append.mp hdn with hnew | hold
    · obtain ⟨q', -, rfl, hq', -⟩ := Shape.mem_namesAt (Shape.straight_of_leads hp) hnew
      obtain rfl := h.tree.forest.descend_inj (Shape.isDir_of_entry hj) hq hq'
      obtain ⟨d', hd', hi⟩ := descend_concat_eq_some.mp hp
      cases hq.symm.trans hd'
      cases hj.symm.trans hi
      exact .inr ⟨rfl, rfl⟩
    · exact .inl (h.names d n hold q j hq hbelow hj)

/-- A path that leads nowhere is no path of a name. -/
theorem forget (h : Table known s srv) {p : Path} (hp : s.leads s.root p = none) (id : FileId) :
    Table known s (srv.forget id p) := by
  refine ⟨h.tree, ?_, ?_⟩
  · intro id' q hq
    rw [PassthroughFs.forget_root]
    exact h.below id' q (PassthroughFs.mem_stored_forget.mp hq).1
  · intro d n hdn q i hq hbelow hi
    rw [PassthroughFs.forget_root] at hbelow
    refine PassthroughFs.mem_stored_forget.mpr ⟨h.names d n hdn q i hq hbelow hi, ?_⟩
    rintro ⟨-, rfl⟩
    cases (descend_concat_eq_some.mpr ⟨d, hq, hi⟩).symm.trans hp

/-- Names that go leave the others where they are. -/
theorem shrinks (h : Table known s srv) (htree : s'.WellFormed) (hroot : s'.root = s.root)
    (hentry : ∀ c m j, s'.entry c m = some j → s.entry c m = some j) : Table known s' srv := by
  refine ⟨htree, h.below, ?_⟩
  intro d n hdn q i hq hbelow hi
  rw [hroot] at hq
  exact h.names d n hdn q i (descend_shrink hentry hq) hbelow (hentry d n i hi)

/-- The inode `i` gets the name `(c, n)`. The other names stay where they are, unless they come along
with `i`. -/
theorem grows (h : Table known s srv) (htree : s'.WellFormed) (hroot : s'.root = s.root) {c i : Inode}
    {n : Name}
    (hentry : ∀ a m j, s'.entry a m = some j → s.entry a m = some j ∨ (a, m) = (c, n) ∧ j = i)
    (hmoved : ∀ q d m j, s.leads i q = some d → s.entry d m = some j → (d, m) ∉ known) :
    Table (known.filter (· ≠ (c, n))) s' srv := by
  refine ⟨htree, h.below, ?_⟩
  intro d m hdm q j hq hbelow hj
  obtain ⟨hknown, hne⟩ := List.mem_filter.mp hdm
  have hold : s.entry d m = some j := by
    rcases hentry d m j hj with hold | ⟨heq, -⟩
    · exact hold
    · exact absurd heq (of_decide_eq_true hne)
  rw [hroot] at hq
  have hedges : ∀ a b k, s'.entry a b = some k → s.entry a b = some k ∨ k = i :=
    fun a b k hk => (hentry a b k hk).imp_right And.right
  rcases descend_grow hedges hq with hlead | ⟨r, hr⟩
  · exact h.names d m hknown q j hlead hbelow hold
  · exact absurd hknown (hmoved r d m j hr hold)

end Table

/-- All of `known` is in the table but the name at the end of `p`, which is there. -/
structure Due (known : List (Inode × Name)) (p : Path) (s : Shape) (srv : PassthroughFs) : Prop where
  table : ∃ known', Table known' s srv ∧ known ⊆ s.namesAt p ++ known'
  below : srv.root <+: p
  leads : ∃ i, s.leads s.root p = some i

theorem Due.note {known : List (Inode × Name)} {p : Path} {s : Shape} {srv : PassthroughFs}
    (h : Due known p s srv) {i : Inode} (hi : s.leads s.root p = some i) :
    Table (s.namesAt p ++ known) s (srv.note i.fileid p) := by
  obtain ⟨known', htable, hsub⟩ := h.table
  refine (htable.note h.below hi).mono (List.append_subset.mpr ⟨?_, hsub⟩)
  exact List.subset_append_left _ _

theorem Table.due {known : List (Inode × Name)} {p : Path} {s : Shape} {srv : PassthroughFs}
    (h : Table known s srv) (hroot : srv.root <+: p) {i : Inode} (hi : s.leads s.root p = some i) :
    Due known p s srv :=
  ⟨⟨known, h, List.subset_append_right _ _⟩, hroot, i, hi⟩

/-- The name that is not in the table is the one at the end of the path. -/
theorem Due.of_filter {known : List (Inode × Name)} {q : Path} {n : Name} {s : Shape}
    {srv : PassthroughFs} {c i : Inode} (h : Table (known.filter (· ≠ (c, n))) s srv)
    (hroot : srv.root <+: q ++ [n]) (hq : s.leads s.root q = some c) (hi : s.entry c n = some i) :
    Due known (q ++ [n]) s srv := by
  refine ⟨⟨_, h, ?_⟩, hroot, i, descend_concat_eq_some.mpr ⟨c, hq, hi⟩⟩
  intro x hx
  rw [Shape.namesAt_of_leads hq hi]
  by_cases hxc : x = (c, n)
  · rw [hxc]
    exact List.mem_cons_self
  · exact List.mem_append_right _ (List.mem_filter.mpr ⟨hx, decide_eq_true hxc⟩)

/-! ## System calls -/

/-- From an inode without entries no path leads anywhere else. -/
theorem Shape.eq_of_leads {s : Shape} {i d : Inode} (hi : ∀ m, s.entry i m = none) {q : Path}
    (hq : s.leads i q = some d) : d = i := by
  cases q with
  | nil => exact (Option.some.inj hq).symm
  | cons m q =>
    obtain ⟨j, hj, -⟩ := Option.bind_eq_some_iff.mp hq
    rw [hi m] at hj
    cases hj

theorem Shape.entry_of_not_isDir {s : Shape} {i : Inode} (h : s.isDir i = false) (m : Name) :
    s.entry i m = none := by
  cases hm : s.entry i m with
  | none => rfl
  | some j =>
    rw [Shape.isDir_of_entry hm] at h
    cases h

theorem Shape.entry_of_not_mem {s : Shape} {i : Inode} (h : i ∉ s.nodes) (m : Name) :
    s.entry i m = none := by
  unfold entry
  rw [Finmap.lookup_eq_none.mpr h]

theorem Shape.WellFormed.mem_of_find {s : Shape} (h : s.WellFormed) {follow : Bool} {p : Path}
    {i : Inode} (hi : s.find follow p = .ok i) : i ∈ s.nodes := by
  obtain ⟨l, hl, hfound⟩ := ok_of_bind hi
  have hlanded := Shape.locate_landed hl
  cases l with
  | here stack =>
    cases hfound
    exact h.mem_of_leads (Shape.mem_of_isDir h.rootDir) (Shape.Chained.leads hlanded)
  | entry stack n j =>
    cases j with
    | none => cases hfound
    | some j =>
      cases hfound
      exact h.closed _ _ _ hlanded.2.2.symm

/-- The parent of a free or bound end of a straight path. -/
theorem Good.located {follow : Bool} {p root : Path} {s : Shape} (h : Good follow p s root)
    {stack : Stack} {n : Name} {i : Option Inode} (hl : s.locate follow p = .ok (.entry stack n i)) :
    ∃ q, p = q ++ [n] ∧ s.climb [] q = some stack := by
  rcases Shape.locate_straight h.straight hl with ⟨-, heq⟩ | ⟨q, m, st, rfl, hst, heq⟩
  · cases heq
  · cases heq
    exact ⟨q, rfl, hst⟩

section Calls

variable {known : List (Inode × Name)} {fs : FileSys} {srv : PassthroughFs}

theorem Table.made (h : Table known fs.shape srv) {node : Node} (hnode : node.Bare) {fresh : Fresh}
    {follow : Bool} {p : Path} {r : Done Unit} {stack : Stack} {n : Name}
    (hp : Good follow p fs.shape srv.root) (hmade : Syscall.Made node fresh follow p fs r stack n) :
    Due known p r.fs.shape srv := by
  obtain ⟨q, rfl, hst⟩ := hp.located hmade.located
  have hedit := hmade.edit hnode
  have hbinds := hmade.binds hnode
  refine .of_filter (h.grows (hedit.wellFormed h.tree) hedit.root_eq (fun _ _ _ => hbinds.cases) ?_)
    hp.below (leads_parent h.tree hst hedit) hbinds.here
  intro r d m j hd hj
  have hbare := Shape.entry_of_not_mem hmade.unused
  rw [Shape.eq_of_leads hbare hd, hbare m] at hj
  cases hj

theorem Table.linked (h : Table known fs.shape srv) {existing p : Path} {r : Done Unit} {i : Inode}
    {stack : Stack} {n : Name} (hp : Good false p fs.shape srv.root)
    (hlinked : Syscall.Linked existing p fs r i stack n) : Due known p r.fs.shape srv := by
  obtain ⟨q, rfl, hst⟩ := hp.located hlinked.located
  have hedit := hlinked.edit (h.tree.mem_of_find hlinked.found)
  have hbinds := hlinked.binds
  refine .of_filter (h.grows (hedit.wellFormed h.tree) hedit.root_eq (fun _ _ _ => hbinds.cases) ?_)
    hp.below (leads_parent h.tree hst hedit) hbinds.here
  intro r d m j hd hj
  have hfile := Shape.entry_of_not_isDir hlinked.file
  rw [Shape.eq_of_leads hfile hd, hfile m] at hj
  cases hj

/-- A name that was removed is gone, whatever the path to it went through. -/
theorem Table.removed (h : Table known fs.shape srv) {p : Path} {r : Done Unit} {stack : Stack}
    {n : Name} {i : Inode} (hremoved : Syscall.Removed p fs r stack n i) :
    Table known r.fs.shape srv ∧ r.fs.shape.leads r.fs.shape.root p = none := by
  have hshrink : ∀ a m j, r.fs.shape.entry a m = some j → fs.shape.entry a m = some j := by
    intro a m j hj
    rw [hremoved.entry_eq] at hj
    split at hj
    · cases hj
    · exact hj
  have hroot := hremoved.edit.root_eq
  refine ⟨h.shrinks (hremoved.edit.wellFormed h.tree) hroot hshrink, ?_⟩
  rw [hroot]
  cases hp : r.fs.shape.leads fs.shape.root p with
  | none => rfl
  | some j =>
    have hold : fs.shape.leads fs.shape.root p = some j := descend_shrink hshrink hp
    have hgood : Good false p fs.shape [] := ⟨List.nil_prefix, Shape.straight_of_leads hold⟩
    obtain ⟨q, rfl, hst⟩ := hgood.located hremoved.located
    -- the last step of the path would be the name that was freed
    obtain ⟨c, hc, hj⟩ := descend_concat_eq_some.mp hp
    cases (descend_shrink hshrink hc).symm.trans (Shape.leads_of_climb hst)
    rw [hremoved.entry_eq, if_pos ⟨rfl, rfl⟩] at hj
    cases hj

/-- A move carries no name along, if what is moved is no directory, or no path of the table goes on
behind its old name. -/
theorem Table.moved (h : Table known fs.shape srv) {src dst : Path} {r : Done Unit} {stack : Stack}
    {n : Name} {i : Inode} {stack' : Stack} {n' : Name} {old : Option Inode}
    (hsrc : Good false src fs.shape srv.root) (hdst : Good false dst fs.shape srv.root)
    (hmoved : Syscall.Moved src dst fs r stack n i stack' n' old)
    (hsettled : fs.shape.isDir i = true → ∀ id, ∀ p ∈ srv.stored id, src <+: p → p ≠ src →
      fs.shape.live id p = false) : Due known dst r.fs.shape srv := by
  obtain ⟨q, rfl, hst⟩ := hsrc.located hmoved.source
  obtain ⟨q', rfl, hst'⟩ := hdst.located hmoved.target
  obtain ⟨-, -, hbound⟩ := Shape.locate_landed hmoved.source
  obtain ⟨hparent, hentry⟩ := hmoved.leads_target h.tree hst'
  have hi : fs.shape.leads fs.shape.root (q ++ [n]) = some i :=
    descend_concat_eq_some.mpr ⟨_, Shape.leads_of_climb hst, hbound.symm⟩
  refine .of_filter (h.grows (i := i) (hmoved.edit.wellFormed h.tree) hmoved.edit.root_eq ?_ ?_)
    hdst.below hparent hentry
  · intro a m j hj
    rw [hmoved.entry_eq] at hj
    split at hj
    · next heq => exact .inr ⟨Prod.mk.injEq .. ▸ heq, (Option.some.inj hj).symm⟩
    · split at hj
      · cases hj
      · exact .inl hj
  · intro t d m j hd hj hknown
    -- the name would be below the old name of a directory, and so would be its path
    have hdir : fs.shape.isDir i = true := by
      cases ht : fs.shape.isDir i with
      | true => rfl
      | false =>
        have hfile := Shape.entry_of_not_isDir ht
        rw [Shape.eq_of_leads hfile hd, hfile m] at hj
        cases hj
    have hleads : fs.shape.leads fs.shape.root (q ++ [n] ++ t) = some d :=
      descend_append_eq_some.mpr ⟨i, hi, hd⟩
    have hstored := h.names d m hknown _ j hleads (hsrc.below.trans (List.prefix_append _ _)) hj
    have hdead := hsettled hdir j.fileid _ hstored
      ((List.prefix_append _ t).trans (List.prefix_append _ _)) ?_
    · have hlive : fs.shape.live j.fileid (q ++ [n] ++ t ++ [m]) = true :=
        Shape.live_iff.mpr ⟨j, Shape.find_of_leads (descend_concat_eq_some.mpr ⟨d, hleads, hj⟩), rfl⟩
      rw [hlive] at hdead
      cases hdead
    · intro heq
      have hlen := congrArg List.length heq
      simp only [List.length_append, List.length_cons, List.length_nil] at hlen
      omega

end Calls

end NessieStore.Nfs
