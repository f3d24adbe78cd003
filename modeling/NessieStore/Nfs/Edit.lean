import NessieStore.Nfs.Shape

/-!
# What a system call does to the names

Every system call that changes a tree of names binds a free name to a new inode or to a file that has
a name already, frees a name, or moves one. `Edit` lists these changes with what the kernel checks
before; an inode goes with its last name. An edit of a tree gives a tree (`Edit.wellFormed`).

What a proof about paths needs to know of an edit is on which entries the old and the new tree agree:
outside the directories that are edited nothing changes (`Edit.keeps`), and an entry that is new leads
to the inode that the edit binds (`Edit.grows`).
-/

set_option autoImplicit false

namespace NessieStore.Nfs

open Lib

/-- A node without entries: every node that a system call makes. -/
def Node.Bare : Node → Prop
  | .file => True
  | .dir entries => entries = ∅
  | .symlink _ => True

theorem Node.bare_file : Node.Bare .file := trivial

theorem Node.bare_dir : Node.Bare (.dir ∅) := rfl

theorem Node.bare_symlink (target : Bytes) : Node.Bare (.symlink target) := trivial

namespace Shape

variable (s : Shape)

def names (d : Inode) : Finset Name :=
  match s.nodes.lookup d with
  | some (.dir entries) => entries.keys
  | _ => ∅

/-- Bind a name of a directory, or free it. -/
def setEntry (d : Inode) (n : Name) (i : Option Inode) : Shape :=
  match s.nodes.lookup d with
  | some (.dir entries) =>
    { s with nodes := s.nodes.insert d (.dir (i.elim (entries.erase n) (entries.insert n))) }
  | _ => s

def alloc (i : Inode) (node : Node) : Shape := { s with nodes := s.nodes.insert i node }

/-- Some directory has an entry for the inode. -/
def Named (i : Inode) : Prop := ∃ d ∈ s.nodes.keys, ∃ n ∈ s.names d, s.entry d n = some i

instance (i : Inode) : Decidable (s.Named i) :=
  inferInstanceAs (Decidable (∃ d ∈ s.nodes.keys, ∃ n ∈ s.names d, s.entry d n = some i))

/-- Free an inode that has lost its last name. -/
def release (i : Inode) : Shape :=
  if s.Named i then s else { s with nodes := s.nodes.erase i }

/-- Bind a free name of `d` to a new inode. -/
def add (d : Inode) (n : Name) (i : Inode) (node : Node) : Shape :=
  (s.alloc i node).setEntry d n (some i)

/-- Free a name of `d`, and with its last name the inode. -/
def unlink (d : Inode) (n : Name) (i : Inode) : Shape := (s.setEntry d n none).release i

/-- Move a name; an inode that the new name was bound to loses it. -/
def move (d : Inode) (n : Name) (i : Inode) (d' : Inode) (n' : Name) (old : Option Inode) : Shape :=
  let moved := (s.setEntry d n none).setEntry d' n' (some i)
  old.elim moved moved.release

variable {s}

/-! ## Reading an edited tree -/

theorem exists_entries {d : Inode} (h : s.isDir d = true) :
    ∃ entries, s.nodes.lookup d = some (.dir entries) := by
  unfold isDir at h
  split at h
  · next entries hd => exact ⟨entries, hd⟩
  · cases h

theorem mem_names {d : Inode} {n : Name} {i : Inode} (h : s.entry d n = some i) : n ∈ s.names d := by
  obtain ⟨entries, hd⟩ := exists_entries (isDir_of_entry h)
  unfold entry at h
  unfold names
  rw [hd] at h ⊢
  exact Finmap.mem_keys.mpr (Finmap.mem_of_lookup_eq_some h)

theorem exists_entry_of_mem_names {d : Inode} {n : Name} (h : n ∈ s.names d) :
    ∃ i, s.entry d n = some i := by
  cases hd : s.nodes.lookup d with
  | none => simp [names, hd] at h
  | some node =>
    cases node with
    | dir entries =>
      simp only [names, hd] at h
      simp only [entry, hd]
      exact Finmap.mem_iff.mp (Finmap.mem_keys.mp h)
    | _ => simp [names, hd] at h

theorem named_iff {i : Inode} : s.Named i ↔ ∃ d n, s.entry d n = some i := by
  constructor
  · rintro ⟨d, -, n, -, h⟩
    exact ⟨d, n, h⟩
  · rintro ⟨d, n, h⟩
    exact ⟨d, Finmap.mem_keys.mpr (mem_of_isDir (isDir_of_entry h)), n, mem_names h, h⟩

section SetEntry

variable {d : Inode} (hd : s.isDir d = true) (n : Name) (i : Option Inode)

include hd

theorem entry_setEntry (d' : Inode) (n' : Name) :
    (s.setEntry d n i).entry d' n' = if d' = d ∧ n' = n then i else s.entry d' n' := by
  obtain ⟨entries, hentries⟩ := exists_entries hd
  unfold setEntry
  rw [hentries]
  unfold entry
  dsimp only
  rw [Map.lookup_insert_eq]
  by_cases hd' : d' = d
  · subst hd'
    rw [if_pos rfl, hentries]
    dsimp only
    cases i with
    | none =>
      show (entries.erase n).lookup n' = _
      rw [Map.lookup_erase_eq]
      simp
    | some i =>
      show (entries.insert n i).lookup n' = _
      rw [Map.lookup_insert_eq]
      simp
  · rw [if_neg hd', if_neg fun h => hd' h.1]

theorem isDir_setEntry (j : Inode) : (s.setEntry d n i).isDir j = s.isDir j := by
  obtain ⟨entries, hentries⟩ := exists_entries hd
  unfold setEntry
  rw [hentries]
  unfold isDir
  dsimp only
  rw [Map.lookup_insert_eq]
  by_cases hj : j = d
  · rw [if_pos hj, hj, hentries]
  · rw [if_neg hj]

theorem linkTarget_setEntry (j : Inode) : (s.setEntry d n i).linkTarget j = s.linkTarget j := by
  obtain ⟨entries, hentries⟩ := exists_entries hd
  unfold setEntry
  rw [hentries]
  unfold linkTarget
  dsimp only
  rw [Map.lookup_insert_eq]
  by_cases hj : j = d
  · rw [if_pos hj, hj, hentries]
  · rw [if_neg hj]

theorem mem_setEntry (j : Inode) : j ∈ (s.setEntry d n i).nodes ↔ j ∈ s.nodes := by
  obtain ⟨entries, hentries⟩ := exists_entries hd
  unfold setEntry
  rw [hentries]
  dsimp only
  rw [Finmap.mem_insert]
  constructor
  · rintro (rfl | hj)
    · exact mem_of_isDir hd
    · exact hj
  · exact .inr

end SetEntry

@[simp] theorem setEntry_root (d : Inode) (n : Name) (i : Option Inode) :
    (s.setEntry d n i).root = s.root := by
  unfold setEntry
  split <;> rfl

@[simp] theorem alloc_root (i : Inode) (node : Node) : (s.alloc i node).root = s.root := rfl

@[simp] theorem release_root (i : Inode) : (s.release i).root = s.root := by
  unfold release
  split <;> rfl

section Alloc

variable {i : Inode} (hi : i ∉ s.nodes) {node : Node}

include hi

theorem entry_alloc (hnode : node.Bare) (d : Inode) (n : Name) :
    (s.alloc i node).entry d n = s.entry d n := by
  unfold alloc entry
  dsimp only
  rw [Map.lookup_insert_eq]
  by_cases hd : d = i
  · rw [if_pos hd, hd, Finmap.lookup_eq_none.mpr hi]
    cases node with
    | dir entries =>
      cases (show entries = ∅ from hnode)
      exact Finmap.lookup_empty n
    | file => rfl
    | symlink target => rfl
  · rw [if_neg hd]

theorem isDir_alloc {j : Inode} (hj : j ∈ s.nodes) : (s.alloc i node).isDir j = s.isDir j := by
  unfold alloc isDir
  dsimp only
  rw [Map.lookup_insert_eq, if_neg]
  rintro rfl
  exact hi hj

theorem linkTarget_alloc {j : Inode} (hj : j ∈ s.nodes) :
    (s.alloc i node).linkTarget j = s.linkTarget j := by
  unfold alloc linkTarget
  dsimp only
  rw [Map.lookup_insert_eq, if_neg]
  rintro rfl
  exact hi hj

end Alloc

theorem mem_alloc {i j : Inode} {node : Node} : j ∈ (s.alloc i node).nodes ↔ j = i ∨ j ∈ s.nodes := by
  unfold alloc
  exact Finmap.mem_insert

section Release

variable {i : Inode}

theorem lookup_release (j : Inode) :
    (s.release i).nodes.lookup j = if j = i ∧ ¬ s.Named i then none else s.nodes.lookup j := by
  unfold release
  split
  · next hnamed => rw [if_neg fun h => h.2 hnamed]
  · next hnamed =>
    rw [Map.lookup_erase_eq]
    simp only [hnamed, not_false_eq_true, and_true]

/-- What is named stays. -/
theorem lookup_release_of_named {j : Inode} (h : s.Named j) :
    (s.release i).nodes.lookup j = s.nodes.lookup j := by
  rw [lookup_release, if_neg]
  rintro ⟨rfl, hnot⟩
  exact hnot h

theorem lookup_release_of_ne {j : Inode} (h : j ≠ i) :
    (s.release i).nodes.lookup j = s.nodes.lookup j := by
  rw [lookup_release, if_neg fun hj => h hj.1]

theorem entry_release (hi : ∀ m, s.entry i m = none) (d : Inode) (n : Name) :
    (s.release i).entry d n = s.entry d n := by
  by_cases hd : d = i
  · subst hd
    by_cases hnamed : s.Named d
    · unfold entry
      rw [lookup_release_of_named hnamed]
    · rw [hi n]
      unfold entry
      rw [lookup_release, if_pos ⟨rfl, hnamed⟩]
  · unfold entry
    rw [lookup_release_of_ne hd]

theorem isDir_release_of_ne {j : Inode} (h : j ≠ i) : (s.release i).isDir j = s.isDir j := by
  unfold isDir
  rw [lookup_release_of_ne h]

end Release

/-! ## Edits -/

/-- A change of the names, with the directories that it edits. -/
inductive Edit (s : Shape) : List Inode → Shape → Prop
  | same : Edit s [] s
  | add {d : Inode} {n : Name} {i : Inode} {node : Node} :
      s.isDir d = true → s.entry d n = none → i ∉ s.nodes → node.Bare → Edit s [d] (s.add d n i node)
  | link {d : Inode} {n : Name} {i : Inode} :
      s.isDir d = true → s.entry d n = none → i ∈ s.nodes → s.isDir i = false →
        Edit s [d] (s.setEntry d n (some i))
  | unlink {d : Inode} {n : Name} {i : Inode} :
      s.entry d n = some i → (∀ m, s.entry i m = none) → Edit s [d] (s.unlink d n i)
  | move {d : Inode} {n : Name} {i : Inode} {d' : Inode} {n' : Name} :
      s.entry d n = some i → s.isDir d' = true →
        (∀ j, s.entry d' n' = some j → j ≠ i ∧ ∀ m, s.entry j m = none) →
        Edit s [d, d'] (s.move d n i d' n' (s.entry d' n'))

section Add

variable {d : Inode} (hd : s.isDir d = true) {i : Inode} (hi : i ∉ s.nodes) {node : Node}

include hd hi

theorem isDir_alloc_dir : (s.alloc i node).isDir d = true := by
  rw [isDir_alloc hi (mem_of_isDir hd), hd]

theorem entry_add (hnode : node.Bare) (n : Name) (a : Inode) (m : Name) :
    (s.add d n i node).entry a m = if a = d ∧ m = n then some i else s.entry a m := by
  unfold add
  rw [entry_setEntry (isDir_alloc_dir hd hi), entry_alloc hi hnode]

theorem isDir_add (n : Name) {j : Inode} (hj : j ∈ s.nodes) :
    (s.add d n i node).isDir j = s.isDir j := by
  unfold add
  rw [isDir_setEntry (isDir_alloc_dir hd hi), isDir_alloc hi hj]

theorem linkTarget_add (n : Name) {j : Inode} (hj : j ∈ s.nodes) :
    (s.add d n i node).linkTarget j = s.linkTarget j := by
  unfold add
  rw [linkTarget_setEntry (isDir_alloc_dir hd hi), linkTarget_alloc hi hj]

theorem mem_add (n : Name) (j : Inode) : j ∈ (s.add d n i node).nodes ↔ j = i ∨ j ∈ s.nodes := by
  unfold add
  rw [mem_setEntry (isDir_alloc_dir hd hi), mem_alloc]

theorem wellFormed_add (h : s.WellFormed) (hnode : node.Bare) (n : Name) :
    (s.add d n i node).WellFormed := by
  have hroot : (s.add d n i node).root = s.root := by
    unfold add
    rw [setEntry_root, alloc_root]
  have hedge : ∀ a m b, (s.add d n i node).entry a m = some b → b = i ∨ s.entry a m = some b := by
    intro a m b hb
    rw [entry_add hd hi hnode] at hb
    split at hb
    · exact .inl (Option.some.inj hb).symm
    · exact .inr hb
  refine ⟨?_, ?_, ?_, ?_⟩
  · rw [hroot, isDir_add hd hi n (mem_of_isDir h.rootDir)]
    exact h.rootDir
  · intro a m b hb
    rw [mem_add hd hi]
    exact (hedge a m b hb).imp id (h.closed a m b)
  · intro a m a' m' b hb hb' hdir
    by_cases hbi : b = i
    · -- the new inode has the new name only
      subst hbi
      rw [entry_add hd hi hnode] at hb hb'
      split at hb
      · next ham =>
        split at hb'
        · next ham' => exact ⟨ham.1.trans ham'.1.symm, ham.2.trans ham'.2.symm⟩
        · exact absurd (h.closed _ _ _ hb') hi
      · exact absurd (h.closed _ _ _ hb) hi
    · have hold := (hedge a m b hb).resolve_left hbi
      have hold' := (hedge a' m' b hb').resolve_left hbi
      rw [isDir_add hd hi n (h.closed a m b hold)] at hdir
      exact h.unique a m a' m' b hold hold' hdir
  · intro a m hb
    rw [hroot] at hb
    rcases hedge a m _ hb with heq | hold
    · exact hi (heq ▸ mem_of_isDir h.rootDir)
    · exact h.root a m hold

theorem linkTarget_add_new (n : Name) (hplain : ∀ target, node ≠ .symlink target) :
    (s.add d n i node).linkTarget i = none := by
  unfold add
  rw [linkTarget_setEntry (isDir_alloc_dir hd hi)]
  unfold linkTarget alloc
  dsimp only
  rw [Finmap.lookup_insert]
  cases node with
  | symlink target => exact absurd rfl (hplain target)
  | file => rfl
  | dir entries => rfl

/-- A new file or directory puts no link in the way of a path. -/
theorem straight_add (h : s.WellFormed) (hnode : node.Bare) (n : Name)
    (hplain : ∀ target, node ≠ .symlink target) {follow : Bool} {c : Inode} {p : Path}
    (hp : s.straight follow c p = true) : (s.add d n i node).straight follow c p = true := by
  induction p generalizing c with
  | nil => rfl
  | cons m p ih =>
    rw [straight, entry_add hd hi hnode]
    by_cases hcm : c = d ∧ m = n
    · rw [if_pos hcm]
      dsimp only
      rw [linkTarget_add_new hd hi n hplain]
      -- nothing is below what is new
      cases p with
      | nil => rfl
      | cons m' p =>
        have hnone : s.entry i m' = none := by
          cases hm' : s.entry i m' with
          | none => rfl
          | some j => exact absurd (mem_of_isDir (isDir_of_entry hm')) hi
        rw [Option.isSome_none, if_neg Bool.false_ne_true, straight, entry_add hd hi hnode,
          if_neg, hnone]
        rintro ⟨rfl, -⟩
        exact hi (mem_of_isDir hd)
    · rw [if_neg hcm]
      rw [straight] at hp
      split at hp
      · rfl
      · next j hj =>
        rw [linkTarget_add hd hi n (h.closed c m j hj)]
        split at hp
        · next hlink => rw [if_pos hlink, hp]
        · next hlink =>
          rw [if_neg hlink]
          exact ih hp

end Add

theorem wellFormed_link (h : s.WellFormed) {d i : Inode} {n : Name} (hd : s.isDir d = true)
    (hi : i ∈ s.nodes) (hfile : s.isDir i = false) : (s.setEntry d n (some i)).WellFormed := by
  have hedge : ∀ a m b, (s.setEntry d n (some i)).entry a m = some b →
      b = i ∨ s.entry a m = some b := by
    intro a m b hb
    rw [entry_setEntry hd] at hb
    split at hb
    · exact .inl (Option.some.inj hb).symm
    · exact .inr hb
  refine ⟨?_, ?_, ?_, ?_⟩
  · rw [setEntry_root, isDir_setEntry hd]
    exact h.rootDir
  · intro a m b hb
    rw [mem_setEntry hd]
    rcases hedge a m b hb with rfl | hold
    · exact hi
    · exact h.closed a m b hold
  · intro a m a' m' b hb hb' hdir
    rw [isDir_setEntry hd] at hdir
    have hbi : b ≠ i := by
      rintro rfl
      rw [hfile] at hdir
      cases hdir
    exact h.unique a m a' m' b ((hedge a m b hb).resolve_left hbi)
      ((hedge a' m' b hb').resolve_left hbi) hdir
  · intro a m hb
    rw [setEntry_root] at hb
    rcases hedge a m _ hb with heq | hold
    · have hroot := h.rootDir
      rw [heq, hfile] at hroot
      cases hroot
    · exact h.root a m hold

/-- Freeing an inode that has no entries leaves a tree, if it was not the root. -/
theorem wellFormed_release (h : s.WellFormed) {i : Inode} (hi : ∀ m, s.entry i m = none)
    (hroot : i ≠ s.root) : (s.release i).WellFormed := by
  have hlookup : ∀ a m b, s.entry a m = some b →
      (s.release i).nodes.lookup b = s.nodes.lookup b := by
    intro a m b hb
    exact lookup_release_of_named (named_iff.mpr ⟨a, m, hb⟩)
  refine ⟨?_, ?_, ?_, ?_⟩
  · unfold isDir
    rw [release_root, lookup_release_of_ne hroot.symm]
    exact h.rootDir
  · intro a m b hb
    rw [entry_release hi] at hb
    rw [← Finmap.lookup_isSome, hlookup a m b hb, Finmap.lookup_isSome]
    exact h.closed a m b hb
  · intro a m a' m' b hb hb' hdir
    rw [entry_release hi] at hb hb'
    unfold isDir at hdir
    rw [hlookup a m b hb] at hdir
    exact h.unique a m a' m' b hb hb' hdir
  · intro a m hb
    rw [entry_release hi, release_root] at hb
    exact h.root a m hb

theorem wellFormed_free (h : s.WellFormed) {d : Inode} (hd : s.isDir d = true) (n : Name) :
    (s.setEntry d n none).WellFormed := by
  have hedge : ∀ a m b, (s.setEntry d n none).entry a m = some b → s.entry a m = some b := by
    intro a m b hb
    rw [entry_setEntry hd] at hb
    split at hb
    · cases hb
    · exact hb
  refine ⟨?_, ?_, ?_, ?_⟩
  · rw [setEntry_root, isDir_setEntry hd]
    exact h.rootDir
  · intro a m b hb
    rw [mem_setEntry hd]
    exact h.closed a m b (hedge a m b hb)
  · intro a m a' m' b hb hb' hdir
    rw [isDir_setEntry hd] at hdir
    exact h.unique a m a' m' b (hedge a m b hb) (hedge a' m' b hb') hdir
  · intro a m hb
    rw [setEntry_root] at hb
    exact h.root a m (hedge a m _ hb)

section Unlink

variable {d i : Inode} {n : Name} (hi : s.entry d n = some i) (hempty : ∀ m, s.entry i m = none)

include hi hempty

theorem entry_unlink (a : Inode) (m : Name) :
    (s.unlink d n i).entry a m = if a = d ∧ m = n then none else s.entry a m := by
  have hd := isDir_of_entry hi
  unfold unlink
  rw [entry_release, entry_setEntry hd]
  intro m
  rw [entry_setEntry hd]
  split
  · rfl
  · exact hempty m

omit hempty in
theorem isDir_unlink {j : Inode} (hj : j ≠ i) : (s.unlink d n i).isDir j = s.isDir j := by
  unfold unlink
  rw [isDir_release_of_ne hj, isDir_setEntry (isDir_of_entry hi)]

theorem wellFormed_unlink (h : s.WellFormed) : (s.unlink d n i).WellFormed := by
  have hd := isDir_of_entry hi
  refine wellFormed_release (wellFormed_free h hd n) ?_ ?_
  · intro m
    rw [entry_setEntry hd]
    split
    · rfl
    · exact hempty m
  · rw [setEntry_root]
    rintro rfl
    exact h.root d n hi

end Unlink

section Move

variable {d i d' : Inode} {n n' : Name} (hi : s.entry d n = some i) (hd' : s.isDir d' = true)
  (hold : ∀ j, s.entry d' n' = some j → j ≠ i ∧ ∀ m, s.entry j m = none)

include hi hd'

theorem entry_moved (a : Inode) (m : Name) :
    ((s.setEntry d n none).setEntry d' n' (some i)).entry a m =
      if a = d' ∧ m = n' then some i else if a = d ∧ m = n then none else s.entry a m := by
  have hd := isDir_of_entry hi
  rw [entry_setEntry (by rw [isDir_setEntry hd]; exact hd'), entry_setEntry hd]

theorem isDir_move {j : Inode} (hj : s.entry d' n' ≠ some j) :
    (s.move d n i d' n' (s.entry d' n')).isDir j = s.isDir j := by
  have hd := isDir_of_entry hi
  have hmoved : ((s.setEntry d n none).setEntry d' n' (some i)).isDir j = s.isDir j := by
    rw [isDir_setEntry (by rw [isDir_setEntry hd]; exact hd'), isDir_setEntry hd]
  unfold move
  cases hk : s.entry d' n' with
  | none => exact hmoved
  | some k =>
    rw [← hmoved]
    refine isDir_release_of_ne ?_
    rintro rfl
    exact hj hk

include hold

/-- What the new name was bound to has no entries after the move either. -/
theorem entry_moved_old {j : Inode} (hj : s.entry d' n' = some j) (m : Name) :
    ((s.setEntry d n none).setEntry d' n' (some i)).entry j m = none := by
  rw [entry_moved hi hd']
  split
  · next hjm =>
    obtain ⟨rfl, rfl⟩ := hjm
    rw [(hold j hj).2 m] at hj
    cases hj
  · split
    · rfl
    · exact (hold j hj).2 m

theorem entry_move (a : Inode) (m : Name) :
    (s.move d n i d' n' (s.entry d' n')).entry a m =
      if a = d' ∧ m = n' then some i else if a = d ∧ m = n then none else s.entry a m := by
  rw [← entry_moved hi hd']
  unfold move
  cases hj : s.entry d' n' with
  | none => rfl
  | some j => exact entry_release (entry_moved_old hi hd' hold hj) a m

theorem wellFormed_move (h : s.WellFormed) :
    (s.move d n i d' n' (s.entry d' n')).WellFormed := by
  have hd := isDir_of_entry hi
  have hdir : ∀ b, ((s.setEntry d n none).setEntry d' n' (some i)).isDir b = s.isDir b := by
    intro b
    rw [isDir_setEntry (by rw [isDir_setEntry hd]; exact hd'), isDir_setEntry hd]
  have hedge : ∀ a m b, ((s.setEntry d n none).setEntry d' n' (some i)).entry a m = some b →
      b = i ∧ a = d' ∧ m = n' ∨ s.entry a m = some b ∧ ¬ (a = d ∧ m = n) := by
    intro a m b hb
    rw [entry_moved hi hd'] at hb
    split at hb
    · next ham => exact .inl ⟨(Option.some.inj hb).symm, ham⟩
    · split at hb
      · cases hb
      · next hne => exact .inr ⟨hb, hne⟩
  have hmoved : ((s.setEntry d n none).setEntry d' n' (some i)).WellFormed := by
    refine ⟨?_, ?_, ?_, ?_⟩
    · rw [setEntry_root, setEntry_root, hdir]
      exact h.rootDir
    · intro a m b hb
      rw [mem_setEntry (by rw [isDir_setEntry hd]; exact hd'), mem_setEntry hd]
      rcases hedge a m b hb with ⟨rfl, -⟩ | ⟨hb, -⟩
      · exact h.closed d n b hi
      · exact h.closed a m b hb
    · intro a m a' m' b hb hb' hbdir
      rw [hdir] at hbdir
      -- a directory had the freed name only, so it has the new one only
      rcases hedge a m b hb with ⟨hbi, ha, hm⟩ | ⟨hfrom, hne⟩ <;>
        rcases hedge a' m' b hb' with ⟨hbi', ha', hm'⟩ | ⟨hfrom', hne'⟩
      · exact ⟨ha.trans ha'.symm, hm.trans hm'.symm⟩
      · obtain ⟨rfl, rfl⟩ := h.unique d n a' m' b (hbi ▸ hi) hfrom' hbdir
        exact absurd ⟨rfl, rfl⟩ hne'
      · obtain ⟨rfl, rfl⟩ := h.unique d n a m b (hbi' ▸ hi) hfrom hbdir
        exact absurd ⟨rfl, rfl⟩ hne
      · exact h.unique a m a' m' b hfrom hfrom' hbdir
    · intro a m hb
      rw [setEntry_root, setEntry_root] at hb
      rcases hedge a m _ hb with ⟨heq, -⟩ | ⟨hb, -⟩
      · exact h.root d n (heq ▸ hi)
      · exact h.root a m hb
  unfold move
  cases hj : s.entry d' n' with
  | none => exact hmoved
  | some j =>
    refine wellFormed_release hmoved (entry_moved_old hi hd' hold hj) ?_
    rw [setEntry_root, setEntry_root]
    rintro rfl
    exact h.root d' n' hj

end Move

namespace Edit

variable {ds : List Inode} {s' : Shape}

theorem wellFormed (h : Edit s ds s') (hs : s.WellFormed) : s'.WellFormed := by
  cases h with
  | same => exact hs
  | add hd hn hi hnode => exact wellFormed_add hd hi hs hnode _
  | link hd hn hi hfile => exact wellFormed_link hs hd hi hfile
  | unlink hi hempty => exact wellFormed_unlink hi hempty hs
  | move hi hd' hold => exact wellFormed_move hi hd' hold hs

theorem root_eq (h : Edit s ds s') : s'.root = s.root := by
  cases h with
  | same => rfl
  | add hd hn hi hnode => rw [Shape.add, setEntry_root, alloc_root]
  | link hd hn hi hfile => rw [setEntry_root]
  | unlink hi hempty => rw [Shape.unlink, release_root, setEntry_root]
  | @move d n i d' n' hi hd' hold =>
    unfold Shape.move
    cases s.entry d' n' with
    | none => exact (setEntry_root ..).trans (setEntry_root ..)
    | some j => exact (release_root _).trans ((setEntry_root ..).trans (setEntry_root ..))

/-- Nothing changes outside the directories that are edited. -/
theorem keeps (h : Edit s ds s') {c : Inode} (hc : c ∉ ds) (m : Name) : s'.entry c m = s.entry c m := by
  cases h with
  | same => rfl
  | add hd hn hi hnode =>
    rw [entry_add hd hi hnode, if_neg fun hcm => hc (List.mem_singleton.mpr hcm.1)]
  | link hd hn hi hfile =>
    rw [entry_setEntry hd, if_neg fun hcm => hc (List.mem_singleton.mpr hcm.1)]
  | unlink hi hempty =>
    rw [entry_unlink hi hempty, if_neg fun hcm => hc (List.mem_singleton.mpr hcm.1)]
  | move hi hd' hold =>
    rw [entry_move hi hd' hold, if_neg, if_neg]
    · rintro ⟨rfl, -⟩
      exact hc List.mem_cons_self
    · rintro ⟨rfl, -⟩
      exact hc (List.mem_cons_of_mem _ List.mem_cons_self)

/-- A path that ends above everything that is edited leads where it led. -/
theorem leads_keep (h : Edit s ds s') (hs : s.WellFormed) {p : Path} {e : Inode}
    (hp : s.leads s.root p = some e) (hds : ∀ d ∈ ds, s.Inside e d) :
    s'.leads s'.root p = some e := by
  rw [h.root_eq]
  refine hs.forest.descend_keep hp ?_
  intro c m j hout hj
  rw [h.keeps ?_ m]
  · exact hj
  · intro hc
    obtain ⟨q, hq⟩ := hds c hc
    exact hout q hq

end Edit

/-! ## New names -/

/-- The free name `(c, n)` was bound to `i`, and every other name stayed. -/
structure Binds (s : Shape) (c : Inode) (n : Name) (i : Inode) (s' : Shape) : Prop where
  free : s.entry c n = none
  entry_eq : ∀ a m, s'.entry a m = if a = c ∧ m = n then some i else s.entry a m

namespace Binds

variable {s s' : Shape} {c i : Inode} {n : Name}

theorem here (h : s.Binds c n i s') : s'.entry c n = some i := by
  rw [h.entry_eq, if_pos ⟨rfl, rfl⟩]

theorem keeps (h : s.Binds c n i s') {a j : Inode} {m : Name} (hj : s.entry a m = some j) :
    s'.entry a m = some j := by
  rw [h.entry_eq]
  split
  · next heq =>
    obtain ⟨rfl, rfl⟩ := heq
    cases h.free.symm.trans hj
  · exact hj

theorem cases (h : s.Binds c n i s') {a j : Inode} {m : Name} (hj : s'.entry a m = some j) :
    s.entry a m = some j ∨ (a, m) = (c, n) ∧ j = i := by
  rw [h.entry_eq] at hj
  split at hj
  · next heq =>
    obtain ⟨rfl, rfl⟩ := heq
    exact .inr ⟨rfl, (Option.some.inj hj).symm⟩
  · exact .inl hj

end Binds

end Shape

end NessieStore.Nfs
