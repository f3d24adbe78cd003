import NessieStore.Lib.Paging
import NessieStore.Nfs.Passthrough

/-!
# Paging through a directory

A client lists a directory by asking for the entries behind the last cookie that it has received,
beginning with zero. Between two pages the directory may change, and with it the cookies, which are
computed anew for each page: a cookie is the hash of a name, numbered among the names that share its
high bits.

A page is what `Lib.Pager` lists of the directory, each name under the number of its cookie
(`readdir_of_directory`, `mem_inventory`), as long as the numbers have room. Each page may be asked
for in any world, so a client's run covers whatever other clients, the kernel and restarts do in
between. Within one call nothing changes.
-/

set_option autoImplicit false

namespace NessieStore.Nfs

open Lib

/-! ## One page -/

/-- The directory that a handle leads to, and the path that leads there. -/
def directory (dirid : FileId) (w : World) : Option (Path × Inode) :=
  match pathOf dirid w with
  | .error _ _ => none
  | .ok p _ =>
    match w.fs.shape.find false p with
    | .error _ => none
    | .ok d => if w.fs.shape.isDir d then some (p, d) else none

/-- What the directory of a handle has. -/
def served (dirid : FileId) (w : World) : List (Name × Inode) :=
  ((directory dirid w).map fun x => w.fs.shape.listing x.2).getD []

/-- An entry on its way to the client: the number of its cookie, its handle and its name. -/
abbrev Line := Nat × FileId × Bytes

def DirEntry.line (e : DirEntry) : Line := (e.cookie.toNat, e.fileid, e.name)

def lineOf (x : UInt64 × FileId × Path) : Line := (x.1.toNat, x.2.1, fileName x.2.2)

/-- The lines of a directory, in the order of `readdir`. -/
def inventory (sha : Bytes → UInt64) (dirid : FileId) (w : World) : List Line :=
  ((directory dirid w).map fun x =>
    (withCookies sha x.1 ((w.fs.shape.listing x.2).map fun e => (e.1, w.fs.metadata e.2))).map
      lineOf).getD []

theorem directory_eq_some_iff {dirid : FileId} {w : World} {p : Path} {d : Inode} :
    directory dirid w = some (p, d) ↔ (∃ w', pathOf dirid w = .ok p w') ∧
      w.fs.shape.find false p = .ok d ∧ w.fs.shape.isDir d = true := by
  unfold directory
  constructor
  · intro h
    split at h
    · cases h
    next q w' hpath =>
    split at h
    · cases h
    next d' hfind =>
    split at h
    · next hdir =>
      cases h
      exact ⟨⟨w', hpath⟩, hfind, hdir⟩
    · cases h
  · rintro ⟨⟨w', hpath⟩, hfind, hdir⟩
    simp only [hpath, hfind, hdir, if_true]

theorem metadata_dir_iff {fs : FileSys} {i : Inode} :
    (fs.metadata i).fileType = .dir ↔ fs.shape.isDir i = true := by
  unfold FileSys.metadata Shape.isDir
  split <;> simp_all

/-- A call that only reads. -/
theorem syscall_reads {α : Type} {call : Syscall α} {fs : FileSys} {a : α} {touched : List Inode}
    (h : call fs = .ok ⟨a, fs, touched⟩) (server : PassthroughFs) (log : List Access) :
    ∃ log', syscall call ⟨server, fs, log⟩ = .ok a ⟨server, fs, log'⟩ := by
  refine ⟨⟨fs.shape, touched, fs.shape⟩ :: log, ?_⟩
  unfold syscall
  rw [h]

/-- The loop of `readdir` over entries that are there. -/
theorem listEntries_of_found {fs : FileSys} {l : List (UInt64 × FileId × Path)}
    (h : ∀ x ∈ l, ∃ i, fs.shape.find false x.2.2 = .ok i) (k : Nat) (server : PassthroughFs)
    (log : List Access) :
    ∃ entries w', listEntries k l ⟨server, fs, log⟩ = .ok entries w' ∧
      entries.map DirEntry.line = (l.take k).map lineOf := by
  induction l generalizing k server log with
  | nil => cases k <;> exact ⟨[], _, rfl, rfl⟩
  | cons x rest ih =>
    obtain ⟨cookie, id, path⟩ := x
    cases k with
    | zero => exact ⟨[], _, rfl, rfl⟩
    | succ k =>
      obtain ⟨⟨i, hi⟩, hrest⟩ := List.forall_mem_cons.mp h
      obtain ⟨log', hlstat⟩ := syscall_reads (Syscall.lstat_of_find hi) server log
      have hnote : notePath id path ⟨server, fs, log'⟩ = .ok () ⟨server.note id path, fs, log'⟩ := rfl
      obtain ⟨entries, w', hrun, hlines⟩ := ih hrest k (server.note id path) log'
      refine ⟨⟨id, cookie, fileName path, metadataToFattr id (fs.metadata i)⟩ :: entries, w', ?_, ?_⟩
      · rw [listEntries, bind_of_ok hlstat, bind_of_ok hnote, bind_of_ok hrun]
        rfl
      · rw [List.take_succ_cons, List.map_cons, List.map_cons, hlines]
        rfl

/-- What lies behind a cookie is what is left after skipping. -/
theorem drop_eq_ahead {α : Type} {key : α → Nat} {l : List α} (t : Nat)
    (h : l.Pairwise fun x y => key x < key y) :
    l.drop (l.takeWhile fun x => key x ≤ t).length = Pager.ahead key (some t) l := by
  induction l with
  | nil => rfl
  | cons x l ih =>
    obtain ⟨hx, hl⟩ := List.pairwise_cons.mp h
    by_cases hle : key x ≤ t
    · rw [List.takeWhile_cons_of_pos (by simpa using hle), List.length_cons, List.drop_succ_cons,
        ih hl, Pager.ahead, Pager.ahead, List.filter_cons_of_neg]
      simpa [Beyond] using hle
    · rw [List.takeWhile_cons_of_neg (by simpa using hle), List.length_nil, List.drop_zero]
      refine (List.filter_eq_self.mpr fun y hy => decide_eq_true ?_).symm
      rintro _ ⟨⟩
      rcases List.mem_cons.mp hy with rfl | hy
      · omega
      · have hlt := hx y hy
        omega

variable {sha : Bytes → UInt64} {dirid : FileId} {w : World}

/-- `path_of` changes no file. -/
theorem pathOf_fs {p : Path} {w' : World} (h : pathOf dirid w = .ok p w') : w'.fs = w.fs := by
  have hspec := pathOf_spec dirid w
  rw [h] at hspec
  exact hspec.1.fs

/-- Where there is no directory there is no page. -/
theorem readdir_of_none (h : directory dirid w = none) (after : UInt64) (k : Nat) :
    ∃ e w', readdir sha dirid after k w = .error e w' := by
  unfold readdir
  cases hpath : pathOf dirid w with
  | error e w₁ => exact ⟨e, w₁, bind_of_error hpath⟩
  | ok p w₁ =>
    obtain ⟨server, fs, log⟩ := w₁
    obtain rfl : fs = w.fs := pathOf_fs hpath
    rw [bind_of_ok hpath]
    cases hfind : w.fs.shape.find false p with
    | error e =>
      refine ⟨ioToNfs e, ⟨server, w.fs, log⟩, bind_of_error ?_⟩
      unfold syscall Syscall.lstat
      rw [hfind]
      rfl
    | ok d =>
      obtain ⟨log', hlstat⟩ := syscall_reads (Syscall.lstat_of_find hfind) server log
      have hdir : (w.fs.metadata d).fileType ≠ .dir := by
        rw [ne_eq, metadata_dir_iff]
        intro hdir
        rw [directory_eq_some_iff.mpr ⟨⟨_, hpath⟩, hfind, hdir⟩] at h
        cases h
      rw [bind_of_ok hlstat, if_pos hdir]
      exact ⟨_, _, rfl⟩

section Directory

variable {p : Path} {d : Inode} (h : directory dirid w = some (p, d))

include h

theorem served_of_directory : served dirid w = w.fs.shape.listing d := by
  unfold served
  rw [h]
  rfl

theorem inventory_of_directory : inventory sha dirid w =
    (withCookies sha p ((served dirid w).map fun e => (e.1, w.fs.metadata e.2))).map lineOf := by
  rw [served_of_directory h]
  unfold inventory
  rw [h]
  rfl

/-- **A page is the beginning of what lies behind the cookie.** -/
theorem readdir_of_directory
    (hascending : (inventory sha dirid w).Pairwise fun x y => x.1 < y.1) (after : UInt64) (k : Nat) :
    ∃ entries w', readdir sha dirid after k w = .ok (entries,
        decide ((Pager.ahead Prod.fst (some after.toNat) (inventory sha dirid w)).length ≤ k)) w' ∧
      entries.map DirEntry.line =
        (Pager.ahead Prod.fst (some after.toNat) (inventory sha dirid w)).take k := by
  obtain ⟨⟨⟨server, fs, log⟩, hpath⟩, hfind, hdir⟩ := directory_eq_some_iff.mp h
  obtain rfl : fs = w.fs := pathOf_fs hpath
  rw [inventory_of_directory h] at hascending ⊢
  have hread : Syscall.readDir p w.fs = .ok ⟨(served dirid w).map fun e => (e.1, w.fs.metadata e.2),
      w.fs, d :: (served dirid w).map Prod.snd⟩ := by
    unfold Syscall.readDir
    rw [Shape.find_true_of_isDir hfind hdir, served_of_directory h]
    exact if_pos hdir
  generalize hfound : withCookies sha p ((served dirid w).map fun e => (e.1, w.fs.metadata e.2)) =
    found at hascending ⊢
  have hthere : ∀ x ∈ found.drop (found.takeWhile fun e => e.1 ≤ after).length,
      ∃ i, w.fs.shape.find false x.2.2 = .ok i := by
    intro x hx
    rw [← hfound] at hx
    obtain ⟨m, hm, hpath, -⟩ := mem_withCookies (List.mem_of_mem_drop hx)
    obtain ⟨e, he, rfl⟩ := List.mem_map.mp hm
    rw [served_of_directory h] at he
    rw [hpath]
    exact ⟨e.2, Shape.find_entry hfind hdir (Shape.mem_listing.mp he)⟩
  have hahead : (found.drop (found.takeWhile fun e => e.1 ≤ after).length).map lineOf =
      Pager.ahead Prod.fst (some after.toNat) (found.map lineOf) := by
    rw [← drop_eq_ahead after.toNat hascending, List.takeWhile_map, List.length_map, List.map_drop]
    rfl
  -- the calls, one after the other
  obtain ⟨log₁, hlstat⟩ := syscall_reads (Syscall.lstat_of_find hfind) server log
  obtain ⟨log₂, hlist⟩ := syscall_reads hread server log₁
  obtain ⟨entries, w', hrun, hentries⟩ := listEntries_of_found hthere k server log₂
  have hnotdir : ¬ (w.fs.metadata d).fileType ≠ .dir := not_not.mpr (metadata_dir_iff.mpr hdir)
  refine ⟨entries, w', ?_, by rw [hentries, List.map_take, hahead]⟩
  have hall := congrArg List.length hahead
  have hlength := congrArg List.length hentries
  rw [List.length_map, List.length_drop] at hall
  rw [List.length_map, List.length_map, List.length_take, List.length_drop] at hlength
  unfold readdir
  rw [bind_of_ok hpath, bind_of_ok hlstat, if_neg hnotdir]
  dsimp only
  rw [bind_of_ok hlist, hfound, bind_of_ok hrun]
  have hend : entries.length = found.length - (found.takeWhile fun e => e.1 ≤ after).length ↔
      (Pager.ahead Prod.fst (some after.toNat) (found.map lineOf)).length ≤ k := by
    omega
  rw [← decide_eq_decide.mpr hend]
  rfl

end Directory

/-! ## The cookies of names -/

section Names

variable (sha)

/-- The high bits that a name has in every directory. -/
def nameGroup (n : Name) : UInt64 := high (nameCookie sha n.bytes)

/-- The low byte has room for the names that share their high bits. -/
def NamesFit (names : List Name) : Prop :=
  ∀ n ∈ names, (names.countP fun m => nameGroup sha m = nameGroup sha n) ≤
    if nameGroup sha n = 0 then 255 else 256

def nameRank (names : List Name) (n : Name) : Nat :=
  names.countP fun m => nameGroup sha m = nameGroup sha n ∧ nameBytes m < nameBytes n

/-- The cookie of a name among others. -/
def nameNumber (names : List Name) (n : Name) : Nat :=
  (nameGroup sha n).toNat +
    if nameGroup sha n = 0 then nameRank sha names n + 1 else nameRank sha names n

/-- What `readdir` hands to `assign_cookies`. -/
def hashed (dir : Path) (names : List Name) : List (UInt64 × Path) :=
  names.map fun n => (nameCookie sha n.bytes, dir ++ [n])

variable {sha}

theorem pathKey_concat_lt {dir : Path} {m n : Name} :
    pathKey (dir ++ [m]) < pathKey (dir ++ [n]) ↔ nameBytes m < nameBytes n := by
  have hmono : StrictMono fun b : List Nat => pathKey dir ++ [b] :=
    fun a b hlt => List.append_left_lt (List.Lex.rel hlt)
  unfold pathKey
  rw [List.map_append, List.map_append]
  exact hmono.lt_iff_lt

theorem cookieOf_hashed (dir : Path) (names : List Name) (n : Name) :
    cookieOf (hashed sha dir names) (nameCookie sha n.bytes, dir ++ [n]) = nameNumber sha names n := by
  have hrank : rankIn (hashed sha dir names) (nameCookie sha n.bytes, dir ++ [n]) =
      nameRank sha names n := by
    unfold rankIn hashed nameRank
    rw [List.countP_map]
    refine List.countP_congr fun m _ => ?_
    simp only [Function.comp_apply, pathKey_concat_lt]
    rfl
  rw [cookieOf, hrank]
  rfl

theorem groupsFit_hashed {names : List Name} (h : NamesFit sha names) (dir : Path) :
    GroupsFit (hashed sha dir names) := by
  intro e he
  obtain ⟨n, hn, rfl⟩ := List.mem_map.mp he
  unfold groupSize hashed
  rw [List.countP_map]
  exact h n hn

theorem nodup_hashed {names : List Name} (h : names.Nodup) (dir : Path) :
    ((hashed sha dir names).map Prod.snd).Nodup := by
  unfold hashed
  rw [List.map_map]
  refine h.map fun m n heq => ?_
  exact List.singleton_injective (List.append_cancel_left heq)

/-- The number of a name depends on its own group only. -/
theorem nameNumber_congr {names names' : List Name} {n : Name} (h : names.Nodup) (h' : names'.Nodup)
    (hgroup : ∀ m, nameGroup sha m = nameGroup sha n → (m ∈ names ↔ m ∈ names')) :
    nameNumber sha names n = nameNumber sha names' n := by
  have hperm : (names.filter fun m => nameGroup sha m = nameGroup sha n).Perm
      (names'.filter fun m => nameGroup sha m = nameGroup sha n) := by
    rw [List.perm_ext_iff_of_nodup (h.filter _) (h'.filter _)]
    intro m
    simp only [List.mem_filter, decide_eq_true_eq]
    constructor
    · exact fun hm => ⟨(hgroup m hm.2).mp hm.1, hm.2⟩
    · exact fun hm => ⟨(hgroup m hm.2).mpr hm.1, hm.2⟩
  have hrank : nameRank sha names n = nameRank sha names' n := by
    have hcount := hperm.countP_eq fun m => nameBytes m < nameBytes n
    rw [List.countP_filter, List.countP_filter] at hcount
    unfold nameRank
    simpa only [Bool.decide_and, Bool.and_comm] using hcount
  rw [nameNumber, nameNumber, hrank]

theorem nameNumber_pos (names : List Name) (n : Name) : 0 < nameNumber sha names n := by
  rw [← cookieOf_hashed []]
  exact cookieOf_pos _ _

section Fit

variable {found : List (Name × Metadata)} (hnodup : (found.map Prod.fst).Nodup)

theorem hashed_found (dir : Path) :
    (found.map fun e => (nameCookie sha e.1.bytes, dir ++ [e.1])) =
      hashed sha dir (found.map Prod.fst) := by
  unfold hashed
  rw [List.map_map]
  rfl

include hnodup

/-- Each path has its id. -/
theorem find_id (dir : Path) {e : Name × Metadata} (he : e ∈ found) :
    found.find? (fun x => dir ++ [x.1] = dir ++ [e.1]) = some e := by
  cases hx : found.find? (fun x => dir ++ [x.1] = dir ++ [e.1]) with
  | none => exact absurd (decide_eq_true rfl) (List.find?_eq_none.mp hx e he)
  | some x =>
    have hfound := List.find?_some hx
    have hname : x.1 = e.1 :=
      List.singleton_injective (List.append_cancel_left (of_decide_eq_true hfound))
    rw [List.inj_on_of_nodup_map hnodup (List.mem_of_find?_eq_some hx) he hname]

variable (hfit : NamesFit sha (found.map Prod.fst)) (dir : Path)

include hfit

theorem withCookies_ascending :
    ((withCookies sha dir found).map lineOf).Pairwise fun x y => x.1 < y.1 := by
  unfold withCookies
  rw [hashed_found, List.pairwise_map]
  have hcookies := assignCookies_ascending (nodup_hashed hnodup dir) (groupsFit_hashed hfit dir)
  refine hcookies.filterMap _ ?_
  intro x y hlt x' hx' y' hy'
  obtain ⟨_, -, rfl⟩ := Option.map_eq_some_iff.mp hx'
  obtain ⟨_, -, rfl⟩ := Option.map_eq_some_iff.mp hy'
  exact hlt

theorem number_of_mem {c : UInt64} {n : Name}
    (h : (c, dir ++ [n]) ∈ assignCookies (hashed sha dir (found.map Prod.fst))) :
    c.toNat = nameNumber sha (found.map Prod.fst) n := by
  obtain ⟨x, hx, hc, hpath⟩ :=
    mem_assignCookies_fit (nodup_hashed hnodup dir) (groupsFit_hashed hfit dir) h
  obtain ⟨m, -, rfl⟩ := List.mem_map.mp hx
  obtain rfl : n = m := List.singleton_injective (List.append_cancel_left hpath)
  exact hc.trans (cookieOf_hashed dir _ n)

/-- Each name is listed, under its number. -/
theorem mem_lines {x : Line} : x ∈ (withCookies sha dir found).map lineOf ↔
    ∃ e ∈ found, x = (nameNumber sha (found.map Prod.fst) e.1, e.2.inode.fileid, e.1.bytes) := by
  have hline : ∀ {c : UInt64} {e : Name × Metadata},
      (c, dir ++ [e.1]) ∈ assignCookies (hashed sha dir (found.map Prod.fst)) →
      lineOf (c, e.2.inode.fileid, dir ++ [e.1]) =
        (nameNumber sha (found.map Prod.fst) e.1, e.2.inode.fileid, e.1.bytes) := by
    intro c e hc
    rw [lineOf, number_of_mem hnodup hfit dir hc, fileName, List.getLast?_concat]
    rfl
  unfold withCookies
  rw [hashed_found]
  constructor
  · intro hx
    obtain ⟨y, hy, rfl⟩ := List.mem_map.mp hx
    obtain ⟨⟨c, p⟩, hc, hy⟩ := List.mem_filterMap.mp hy
    obtain ⟨id, hid, rfl⟩ := Option.map_eq_some_iff.mp hy
    obtain ⟨e, he, rfl⟩ := Option.map_eq_some_iff.mp hid
    have hpath := List.find?_some he
    obtain rfl : dir ++ [e.1] = p := of_decide_eq_true hpath
    exact ⟨e, List.mem_of_find?_eq_some he, hline hc⟩
  · rintro ⟨e, he, rfl⟩
    have hpath : dir ++ [e.1] ∈ (hashed sha dir (found.map Prod.fst)).map Prod.snd := by
      rw [← hashed_found, List.map_map]
      exact List.mem_map.mpr ⟨e, he, rfl⟩
    obtain ⟨⟨c, p⟩, hc, rfl⟩ := List.mem_map.mp (mem_assignCookies.mpr hpath)
    refine List.mem_map.mpr ⟨(c, e.2.inode.fileid, dir ++ [e.1]), ?_, hline hc⟩
    refine List.mem_filterMap.mpr ⟨(c, dir ++ [e.1]), hc, ?_⟩
    dsimp only
    rw [find_id hnodup dir he]
    rfl

end Fit

end Names

/-! ## The directory of a handle -/

theorem nodup_served (dirid : FileId) (w : World) : ((served dirid w).map Prod.fst).Nodup := by
  unfold served
  cases directory dirid w with
  | none => exact List.nodup_nil
  | some x => exact w.fs.shape.nodup_listing x.2

/-- The names of the directory of a handle. -/
def servedNames (dirid : FileId) (w : World) : List Name := (served dirid w).map Prod.fst

section Inventory

variable (hfit : NamesFit sha (servedNames dirid w))

include hfit

theorem inventory_ascending : (inventory sha dirid w).Pairwise fun x y => x.1 < y.1 := by
  cases h : directory dirid w with
  | none =>
    unfold inventory
    rw [h]
    exact List.Pairwise.nil
  | some x =>
    have hnames : ((served dirid w).map fun e => (e.1, w.fs.metadata e.2)).map Prod.fst =
        servedNames dirid w := List.map_map
    rw [inventory_of_directory h]
    refine withCookies_ascending ?_ ?_ x.1
    · rw [hnames]
      exact nodup_served dirid w
    · rwa [hnames]

theorem mem_inventory {x : Line} : x ∈ inventory sha dirid w ↔
    ∃ e ∈ served dirid w, x = (nameNumber sha (servedNames dirid w) e.1, e.2.fileid, e.1.bytes) := by
  cases h : directory dirid w with
  | none =>
    unfold inventory served
    rw [h]
    simp
  | some y =>
    have hnames : ((served dirid w).map fun e => (e.1, w.fs.metadata e.2)).map Prod.fst =
        servedNames dirid w := List.map_map
    rw [inventory_of_directory h, mem_lines (hnames ▸ nodup_served dirid w) (hnames ▸ hfit), hnames]
    simp only [List.mem_map, exists_exists_and_eq_and, FileSys.metadata_inode]

theorem nodup_inventory : ((inventory sha dirid w).map Prod.fst).Nodup :=
  List.pairwise_map.mpr ((inventory_ascending hfit).imp fun hlt => ne_of_lt hlt)

/-- One line for each entry. -/
theorem inventory_perm : (inventory sha dirid w).Perm ((served dirid w).map fun e =>
    (nameNumber sha (servedNames dirid w) e.1, e.2.fileid, e.1.bytes)) := by
  have hnames : ((served dirid w).map fun e =>
      (nameNumber sha (servedNames dirid w) e.1, e.2.fileid, e.1.bytes)).Nodup := by
    have hbytes := (nodup_served dirid w).map Name.bytes_injective
    refine List.Nodup.of_map (fun x => x.2.2) ?_
    rw [List.map_map] at hbytes ⊢
    exact hbytes
  rw [List.perm_ext_iff_of_nodup (nodup_inventory hfit).of_map hnames]
  intro x
  rw [mem_inventory hfit, List.mem_map]
  simp only [eq_comm]

/-- The lines depend on the entries only. -/
theorem inventory_eq {w' : World} (h : served dirid w' = served dirid w) :
    inventory sha dirid w' = inventory sha dirid w := by
  have hnames : servedNames dirid w' = servedNames dirid w := congrArg (List.map Prod.fst) h
  have hfit' : NamesFit sha (servedNames dirid w') := by rwa [hnames]
  have hperm := inventory_perm hfit'
  rw [h, hnames] at hperm
  exact eq_of_ascending (inventory_ascending hfit') (inventory_ascending hfit)
    (hperm.trans (inventory_perm hfit).symm)

end Inventory

/-! ## The client -/

/-- A client that lists a directory: the last cookie that it has received, the pages so far, and
whether it was told that this is the end. -/
structure Browse where
  after : UInt64
  pages : List (List DirEntry)
  done : Bool

def Browse.start : Browse := ⟨0, [], false⟩

/-- One call of `readdir`, for so many entries, in the world of that moment. -/
def browse (sha : Bytes → UInt64) (dirid : FileId) (b : Browse) (call : World × Nat) :
    Option Browse :=
  if b.done then none
  else
    match readdir sha dirid b.after call.2 call.1 with
    | .error _ _ => none
    | .ok (entries, fin) _ =>
      some ⟨(entries.getLast?.map DirEntry.cookie).getD b.after, b.pages ++ [entries], fin⟩

/-- What the client has, as lines. -/
def Browse.pager (b : Browse) : Pager Line Nat :=
  ⟨some b.after.toNat, b.pages.map (List.map DirEntry.line), b.done⟩

variable {b b' : Browse} {call : World × Nat}

/-- A call in which a directory is served is a step of the pager. -/
theorem browse_of_directory (hfit : NamesFit sha (servedNames dirid call.1))
    (hdir : directory dirid call.1 ≠ none) :
    (browse sha dirid b call).map Browse.pager =
      b.pager.step Prod.fst (inventory sha dirid call.1, call.2) := by
  obtain ⟨x, hx⟩ := Option.ne_none_iff_exists'.mp hdir
  obtain ⟨entries, w', hrun, hlines⟩ :=
    readdir_of_directory hx (inventory_ascending hfit) b.after call.2
  have htoken : some ((entries.getLast?.map DirEntry.cookie).getD b.after).toNat =
      Pager.nextToken Prod.fst (some b.after.toNat) (entries.map DirEntry.line) := by
    unfold Pager.nextToken
    rw [List.getLast?_map]
    cases entries.getLast? <;> rfl
  unfold browse Pager.step
  rw [hrun]
  cases hdone : b.done with
  | true => simp [Browse.pager, hdone]
  | false => simp [Browse.pager, hdone, htoken, hlines]

theorem directory_of_browse (h : browse sha dirid b call = some b') :
    directory dirid call.1 ≠ none := by
  intro hnone
  obtain ⟨e, w', hrun⟩ := @readdir_of_none sha dirid call.1 hnone b.after call.2
  unfold browse at h
  rw [hrun] at h
  split at h <;> cases h

/-- What holds of a call in a run: something is asked for, and the names fit. -/
def Sound (sha : Bytes → UInt64) (dirid : FileId) (call : World × Nat) : Prop :=
  0 < call.2 ∧ NamesFit sha (servedNames dirid call.1)

theorem Sound.proper (h : Sound sha dirid call) :
    Pager.Proper Prod.fst (inventory sha dirid call.1, call.2) :=
  ⟨inventory_ascending h.2, h.1⟩

section Run

variable {calls : List (World × Nat)}

/-- A client's run is a run of the pager. -/
theorem paged_of_browse
    (h : Run (browse sha dirid) (fun _ call => Sound sha dirid call) Browse.start calls b) :
    Pager.Paged Prod.fst (some 0) (calls.map fun call => (inventory sha dirid call.1, call.2))
      b.pager := by
  have hlabels : List.Forall₂ (fun (call : World × Nat) req =>
      req = (inventory sha dirid call.1, call.2)) calls
      (calls.map fun call => (inventory sha dirid call.1, call.2)) := by
    rw [List.forall₂_map_right_iff, List.forall₂_same]
    exact fun _ _ => rfl
  have hrun : ∃ p, Run (Pager.step Prod.fst) (fun _ req => Pager.Proper Prod.fst req)
      Browse.start.pager (calls.map fun call => (inventory sha dirid call.1, call.2)) p ∧
      p = b.pager := by
    refine h.simulate (R := fun b p => p = b.pager) ?_ hlabels rfl
    rintro b b' _ call _ hsound rfl rfl hstep
    have heq := browse_of_directory (b := b) hsound.2 (directory_of_browse hstep)
    rw [hstep] at heq
    exact ⟨b'.pager, hsound.proper, heq.symm, rfl⟩
  obtain ⟨p, hp, rfl⟩ := hrun
  exact Pager.paged_of_run hp

theorem sound_of_run
    (h : Run (browse sha dirid) (fun _ call => Sound sha dirid call) Browse.start calls b) :
    ∀ call ∈ calls, Sound sha dirid call := by
  refine h.keeps_along (I := fun calls _ => ∀ call ∈ calls, Sound sha dirid call) ?_ (by simp)
  intro calls b b' call hsound hcalls _
  rw [List.forall_mem_append, List.forall_mem_singleton]
  exact ⟨hcalls, hsound⟩

theorem flatten_pager : b.pager.pages.flatten = b.pages.flatten.map DirEntry.line :=
  List.map_flatten.symm

section Finished

variable (h : Run (browse sha dirid) (fun _ call => Sound sha dirid call) Browse.start calls b)
  (hdone : b.done = true)

include h hdone

theorem exists_call : ∃ call, call ∈ calls := by
  cases h with
  | nil => cases hdone
  | cons => exact ⟨_, List.mem_cons_self⟩

/-- Whatever else changes, a name that was always there in a group that stayed the same has been
returned once: it had the same cookie in every call. -/
theorem returned_once {n : Name} (hthere : ∀ call ∈ calls, n ∈ servedNames dirid call.1)
    (hgroup : ∀ call ∈ calls, ∀ call' ∈ calls, ∀ m, nameGroup sha m = nameGroup sha n →
      (m ∈ servedNames dirid call.1 ↔ m ∈ servedNames dirid call'.1)) :
    (b.pages.flatten.map DirEntry.name).count n.bytes = 1 := by
  have hpaged := paged_of_browse h
  have hsound := sound_of_run h
  obtain ⟨call₀, hcall₀⟩ := exists_call h hdone
  have hnumber : ∀ call ∈ calls, nameNumber sha (servedNames dirid call.1) n =
      nameNumber sha (servedNames dirid call₀.1) n := by
    intro call hcall
    exact nameNumber_congr (nodup_served dirid _) (nodup_served dirid _) (hgroup call hcall call₀ hcall₀)
  have hline : ∀ call ∈ calls, ∃ x ∈ inventory sha dirid call.1,
      x.1 = nameNumber sha (servedNames dirid call₀.1) n ∧ x.2.2 = n.bytes := by
    intro call hcall
    obtain ⟨e, he, hname⟩ := List.mem_map.mp (hthere call hcall)
    refine ⟨_, (mem_inventory (hsound call hcall).2).mpr ⟨e, he, rfl⟩, ?_, ?_⟩
    · rw [hname]
      exact hnumber call hcall
    · rw [hname]
  have hkey : ∀ x ∈ b.pager.pages.flatten,
      x.1 = nameNumber sha (servedNames dirid call₀.1) n ↔ x.2.2 = n.bytes := by
    intro x hx
    obtain ⟨req, hreq, hx⟩ := hpaged.mem hx
    obtain ⟨call, hcall, rfl⟩ := List.mem_map.mp hreq
    constructor
    · intro hnum
      obtain ⟨y, hy, hy₁, hy₂⟩ := hline call hcall
      rw [List.inj_on_of_nodup_map (nodup_inventory (hsound call hcall).2) hx hy (hnum.trans hy₁.symm)]
      exact hy₂
    · intro hbytes
      obtain ⟨e, he, rfl⟩ := (mem_inventory (hsound call hcall).2).mp hx
      rw [← hnumber call hcall, ← Name.bytes_injective hbytes]
  obtain ⟨x, hx, hnum⟩ := hpaged.listed (c := nameNumber sha (servedNames dirid call₀.1) n) hdone
    (by rintro _ ⟨⟩; exact nameNumber_pos _ n) (by
      rw [List.forall_mem_map]
      intro call hcall
      obtain ⟨x, hx, hnum, -⟩ := hline call hcall
      exact ⟨x, hx, hnum⟩)
  calc (b.pages.flatten.map DirEntry.name).count n.bytes
      = (b.pager.pages.flatten.map fun x => x.2.2).count n.bytes := by
        rw [flatten_pager, List.map_map]
        rfl
    _ = (b.pager.pages.flatten.map Prod.fst).count
          (nameNumber sha (servedNames dirid call₀.1) n) := by
        rw [List.count_eq_countP, List.count_eq_countP, List.countP_map, List.countP_map]
        refine List.countP_congr fun x hx => ?_
        simp only [Function.comp_apply, beq_iff_eq]
        exact (hkey x hx).symm
    _ = 1 := List.count_eq_one_of_mem hpaged.nodup (List.mem_map.mpr ⟨x, hx, hnum⟩)

/-- In a directory that stayed the same the pages are the directory. -/
theorem returned_all {entries : List (Name × Inode)}
    (hsame : ∀ call ∈ calls, served dirid call.1 = entries) :
    (b.pages.flatten.map fun e => (e.name, e.fileid)).Perm
      (entries.map fun e => (e.1.bytes, e.2.fileid)) := by
  have hpaged := paged_of_browse h
  have hsound := sound_of_run h
  obtain ⟨call₀, hcall₀⟩ := exists_call h hdone
  have hfit := (hsound call₀ hcall₀).2
  have hinventory : ∀ call ∈ calls, inventory sha dirid call.1 = inventory sha dirid call₀.1 :=
    fun call hcall => inventory_eq hfit ((hsame call hcall).trans (hsame call₀ hcall₀).symm)
  have hmem : ∀ x, x ∈ b.pager.pages.flatten ↔ x ∈ inventory sha dirid call₀.1 := by
    have hwithin : ∀ x ∈ b.pager.pages.flatten, x ∈ inventory sha dirid call₀.1 := by
      intro x hx
      obtain ⟨req, hreq, hx⟩ := hpaged.mem hx
      obtain ⟨call, hcall, rfl⟩ := List.mem_map.mp hreq
      rwa [hinventory call hcall] at hx
    intro x
    refine ⟨hwithin x, fun hx => ?_⟩
    have hpos : Beyond (some 0) x.1 := by
      obtain ⟨e, -, rfl⟩ := (mem_inventory hfit).mp hx
      rintro _ ⟨⟩
      exact nameNumber_pos _ e.1
    obtain ⟨y, hy, heq⟩ := hpaged.listed hdone hpos (by
      rw [List.forall_mem_map]
      intro call hcall
      rw [hinventory call hcall]
      exact ⟨x, hx, rfl⟩)
    rwa [← List.inj_on_of_nodup_map (nodup_inventory hfit) (hwithin y hy) hx heq]
  have hperm : b.pager.pages.flatten.Perm (inventory sha dirid call₀.1) :=
    (List.perm_ext_iff_of_nodup hpaged.nodup.of_map (nodup_inventory hfit).of_map).mpr hmem
  have hlines := (hperm.trans (inventory_perm hfit)).map fun x => (x.2.2, x.2.1)
  rw [flatten_pager, List.map_map, List.map_map, hsame call₀ hcall₀] at hlines
  exact hlines

end Finished

/-- While the directory stays the same the end comes. -/
theorem browse_ends {entries : List (Name × Inode)} {calls : Nat → World × Nat}
    (hsound : ∀ i, Sound sha dirid (calls i)) (hdir : ∀ i, directory dirid (calls i).1 ≠ none)
    (hsame : ∀ i, served dirid (calls i).1 = entries) :
    ∃ m b, m ≤ max 1 entries.length ∧ b.done = true ∧
      Run (browse sha dirid) (fun _ call => Sound sha dirid call) Browse.start
        ((List.range m).map calls) b := by
  have hfit := (hsound 0).2
  have hlimits : ∀ i, 0 < (calls i).2 := fun i => (hsound i).1
  have hlength : (Pager.ahead Prod.fst Browse.start.pager.token
      (inventory sha dirid (calls 0).1)).length ≤ entries.length := by
    have hall := (inventory_perm hfit).length_eq
    rw [List.length_map, hsame 0] at hall
    rw [← hall]
    exact List.length_filter_le _ _
  obtain ⟨m, p, -, hm, hdone, hrun⟩ :=
    Pager.ends (inventory_ascending hfit) hlimits (p := Browse.start.pager) rfl hlength
  -- the calls match the requests, since each of them finds the same directory
  have hlabels : List.Forall₂ (fun (req : List Line × Nat) (call : World × Nat) =>
      req = (inventory sha dirid call.1, call.2) ∧ Sound sha dirid call ∧
        directory dirid call.1 ≠ none)
      ((List.range m).map fun i => (inventory sha dirid (calls 0).1, (calls i).2))
      ((List.range m).map calls) := by
    rw [List.forall₂_map_left_iff, List.forall₂_map_right_iff, List.forall₂_same]
    intro i _
    have hi := inventory_eq hfit ((hsame i).trans (hsame 0).symm)
    exact ⟨by rw [hi], hsound i, hdir i⟩
  have hbrowse : ∃ b, Run (browse sha dirid) (fun _ call => Sound sha dirid call) Browse.start
      ((List.range m).map calls) b ∧ b.pager = p := by
    refine hrun.simulate (R := fun p b => Browse.pager b = p) ?_ hlabels rfl
    rintro _ p' b _ call - ⟨rfl, hcall, hserved⟩ rfl hstep
    have heq := browse_of_directory (b := b) hcall.2 hserved
    rw [hstep] at heq
    obtain ⟨b', hb', hpager⟩ := Option.map_eq_some_iff.mp heq
    exact ⟨b', hcall, hb', hpager⟩
  obtain ⟨b, hb, rfl⟩ := hbrowse
  exact ⟨m, b, hm, hdone, hb⟩

end Run

/-- Cookies ascend along the output of `assign_cookies` and are not zero; a client that has been
told the end has each entry of a directory that stayed the same once, and of one that changed each
name that was always there and whose group stayed the same; and in a directory that stays the same
the end comes. -/
theorem readdir_pages_exact (sha : Bytes → UInt64) :
    (∀ v : List (UInt64 × Path), (v.map Prod.snd).Nodup → GroupsFit v →
      ((assignCookies v).Pairwise fun x y => x.1 < y.1) ∧ ∀ e ∈ assignCookies v, e.1 ≠ 0) ∧
    ∀ dirid : FileId,
      (∀ (calls : List (World × Nat)) (b : Browse),
        Run (browse sha dirid) (fun _ call => Sound sha dirid call) Browse.start calls b →
        b.done = true →
        (∀ entries, (∀ call ∈ calls, served dirid call.1 = entries) →
          (b.pages.flatten.map fun e => (e.name, e.fileid)).Perm
            (entries.map fun e => (e.1.bytes, e.2.fileid))) ∧
        ∀ n, (∀ call ∈ calls, n ∈ servedNames dirid call.1) →
          (∀ call ∈ calls, ∀ call' ∈ calls, ∀ m, nameGroup sha m = nameGroup sha n →
            (m ∈ servedNames dirid call.1 ↔ m ∈ servedNames dirid call'.1)) →
          (b.pages.flatten.map DirEntry.name).count n.bytes = 1) ∧
      ∀ (entries : List (Name × Inode)) (calls : Nat → World × Nat),
        (∀ i, Sound sha dirid (calls i) ∧ directory dirid (calls i).1 ≠ none ∧
          served dirid (calls i).1 = entries) →
        ∃ m b, m ≤ max 1 entries.length ∧ b.done = true ∧
          Run (browse sha dirid) (fun _ call => Sound sha dirid call) Browse.start
            ((List.range m).map calls) b := by
  refine ⟨fun v hnodup hfit => ⟨?_, ?_⟩, fun dirid => ⟨?_, ?_⟩⟩
  · exact (assignCookies_ascending hnodup hfit).imp UInt64.lt_iff_toNat_lt.mpr
  · intro e he hzero
    obtain ⟨x, -, hx, -⟩ := mem_assignCookies_fit hnodup hfit he
    have hpos := cookieOf_pos v x
    rw [← hx, hzero] at hpos
    cases hpos
  · intro calls b hrun hdone
    exact ⟨fun _ => returned_all hrun hdone, fun _ => returned_once hrun hdone⟩
  · intro entries calls h
    exact browse_ends (fun i => (h i).1) (fun i => (h i).2.1) fun i => (h i).2.2

/-- The names `a` and `b`. -/
def nameA : Name := ⟨[97], by decide⟩

def nameB : Name := ⟨[98], by decide⟩

/-- A root directory and its handle. -/
def rootHandle : FileId := Inode.fileid ⟨1, 1⟩

def rootAttr : Attr := ⟨0o644, 0, 0, ⟨0, 0⟩, ⟨0, 0⟩⟩

def rootWith (files : List (Name × Inode)) : World where
  server := ⟨[], Finmap.singleton rootHandle [[]], rootHandle⟩
  fs.shape := files.foldl (fun s x => s.add ⟨1, 1⟩ x.1 x.2 .file)
    ⟨⟨1, 1⟩, Finmap.singleton ⟨1, 1⟩ (.dir ∅)⟩
  fs.data _ := []
  fs.attr _ := rootAttr
  log := []

/-- A hash that puts them into two groups. -/
def apart (bytes : Bytes) : UInt64 := if bytes = nameA.bytes then 256 else 512

instance (sha : Bytes → UInt64) (dirid : FileId) (call : World × Nat) :
    Decidable (Sound sha dirid call) := by
  unfold Sound NamesFit
  infer_instance

/-- Both files, and only the second. -/
def filesAB : List (Name × Inode) := [(nameA, ⟨1, 2⟩), (nameB, ⟨1, 3⟩)]

def fileB : List (Name × Inode) := [(nameB, ⟨1, 3⟩)]

/-- One entry a call: a directory that stays the same is read in whole; and one that loses its first
file between the calls still yields the second, once. -/
theorem readdir_pages_exact_two_files :
    (∃ m b, Run (browse apart rootHandle) (fun _ call => Sound apart rootHandle call) Browse.start
        ((List.range m).map fun _ => (rootWith filesAB, 1)) b ∧ b.done = true ∧
      (b.pages.flatten.map fun e => (e.name, e.fileid)).Perm
        (filesAB.map fun e => (e.1.bytes, e.2.fileid))) ∧
    ∃ b, run (browse apart rootHandle) (fun _ call => Sound apart rootHandle call) Browse.start
        [(rootWith filesAB, 1), (rootWith fileB, 1)] = some b ∧ b.done = true ∧
      (b.pages.flatten.map DirEntry.name).count nameB.bytes = 1 := by
  have hboth : served rootHandle (rootWith filesAB) = filesAB := by decide +kernel
  have hlast : served rootHandle (rootWith fileB) = fileB := by decide +kernel
  obtain ⟨hpages, hends⟩ := (readdir_pages_exact apart).2 rootHandle
  constructor
  · obtain ⟨m, b, -, hdone, hrun⟩ := hends filesAB (fun _ => (rootWith filesAB, 1)) fun _ =>
      ⟨by decide +kernel, by decide +kernel, hboth⟩
    refine ⟨m, b, hrun, hdone, (hpages _ _ hrun hdone).1 filesAB ?_⟩
    rw [List.forall_mem_map]
    exact fun _ _ => hboth
  · obtain ⟨b, hrun, hdone⟩ : ∃ b, run (browse apart rootHandle)
        (fun _ call => Sound apart rootHandle call) Browse.start
        [(rootWith filesAB, 1), (rootWith fileB, 1)] = some b ∧ b.done = true :=
      run_exists (by decide +kernel)
    refine ⟨b, hrun, hdone, (hpages _ _ (run_sound hrun) hdone).2 nameB (by decide +kernel) ?_⟩
    -- the file that goes is in the other group
    have hgroup : ∀ call ∈ [(rootWith filesAB, 1), (rootWith fileB, 1)], ∀ m,
        nameGroup apart m = nameGroup apart nameB →
          (m ∈ servedNames rootHandle call.1 ↔ m = nameB) := by
      intro call hcall m hm
      have hne : m ≠ nameA := by
        rintro rfl
        revert hm
        decide +kernel
      simp only [List.mem_cons, List.not_mem_nil, or_false] at hcall
      rcases hcall with rfl | rfl
      · rw [servedNames, hboth]
        simp [filesAB, hne]
      · rw [servedNames, hlast]
        simp [fileB]
    intro call hcall call' hcall' m hm
    rw [hgroup call hcall m hm, hgroup call' hcall' m hm]

end NessieStore.Nfs
