import NessieStore.Core.Digest
import NessieStore.Lib.Descent
import NessieStore.Lib.Ledger
import NessieStore.Lib.Program

/-!
# The tree an export lies in

What the kernel does with a path: inodes, directories that name them, symbolic links, and the walk
from component to component. A walk carries the chain of directories it came through, which is what
`..` goes back along. A symbolic link is followed wherever the path goes on behind it, and at the end
of the path if the system call says so; the kernel gives up after `maxLinks` of them.

`Shape` holds the names only. Contents and attributes are beside it (`FileSys`), since no walk depends
on them. Permissions, and the limits on the length of a name or a path, are not modelled: the daemon
is trusted with the whole tree, and a longer path fails without an effect.

`Shape.straight` says that a walk meets no link. Along such a path the kernel goes where the names
lead (`locate_straight`), and a path that leads somewhere is one (`straight_of_leads`).
-/

set_option autoImplicit false

namespace NessieStore.Nfs

open Lib

/-! ## Names and inodes -/

/-- What a directory entry can be called. The bytes are `.` (46), `/` (47) and NUL. -/
def ValidName (b : Bytes) : Prop := b ≠ [] ∧ b ≠ [46] ∧ b ≠ [46, 46] ∧ 47 ∉ b ∧ 0 ∉ b

instance (b : Bytes) : Decidable (ValidName b) :=
  inferInstanceAs (Decidable (_ ∧ _ ∧ _ ∧ _ ∧ _))

structure Name where
  bytes : Bytes
  valid : ValidName bytes
deriving DecidableEq

theorem Name.bytes_injective : Function.Injective Name.bytes := by
  rintro ⟨b, hb⟩ ⟨b', hb'⟩ rfl
  rfl

/-- An absolute path without `.` and `..`: what `canonicalize` returns, and what the server appends
names to. -/
abbrev Path := List Name

/-- `(st_dev, st_ino)`. -/
structure Inode where
  dev : UInt64
  ino : UInt64
deriving DecidableEq

inductive Node
  | file
  | dir (entries : Map Name Inode)
  | symlink (target : Bytes)

/-- The errors of the system calls, under the names of `std::io::ErrorKind`. -/
inductive Errno
  | notFound
  | permissionDenied
  | alreadyExists
  | notADirectory
  | isADirectory
  | directoryNotEmpty
  | invalidInput
  | filesystemLoop
  | crossesDevices
  | resourceBusy
  | storageFull
  | fileTooLarge
deriving DecidableEq

/-- A component of a path that the kernel is given. -/
inductive Comp
  | here
  | up
  | name (n : Name)

/-- An empty component is as good as `.`, and a NUL never gets into a link. -/
def Comp.ofBytes (b : Bytes) : Comp :=
  if h : ValidName b then .name ⟨b, h⟩ else if b = [46, 46] then .up else .here

/-- The components of the target of a link. -/
def components (target : Bytes) : List Comp := (target.splitOn 47).map Comp.ofBytes

/-- The directories below `/` that a walk has come through, the last one first. -/
abbrev Stack := List (Name × Inode)

def Stack.path (st : Stack) : Path := (st.map Prod.fst).reverse

/-- Where a path ends: at a directory that it names by no entry (`/`, or a target that ends in `.` or
`..`), or at an entry, whether or not there is one of that name. -/
inductive Landing
  | here (stack : Stack)
  | entry (stack : Stack) (name : Name) (ino : Option Inode)

/-- Where a walk stops. -/
inductive Stop
  | at (l : Landing)
  | link (stack : Stack) (target : Bytes) (rest : List Comp)

structure Shape where
  root : Inode
  nodes : Map Inode Node

/-- `MAXSYMLINKS`. -/
def maxLinks : Nat := 40

namespace Shape

variable (s : Shape)

/-! ## Walking -/

def entry (d : Inode) (n : Name) : Option Inode :=
  match s.nodes.lookup d with
  | some (.dir entries) => entries.lookup n
  | _ => none

def isDir (i : Inode) : Bool :=
  match s.nodes.lookup i with
  | some (.dir _) => true
  | _ => false

def linkTarget (i : Inode) : Option Bytes :=
  match s.nodes.lookup i with
  | some (.symlink target) => some target
  | _ => none

/-- The directory that a walk stands in. -/
def top : Stack → Inode
  | [] => s.root
  | (_, i) :: _ => i

/-- Walk up to the end or to the first link that is to be followed. -/
def walk (follow : Bool) : Stack → List Comp → Except Errno Stop
  | stack, [] => .ok (.at (.here stack))
  | stack, c :: rest =>
    if s.isDir (s.top stack) then
      match c with
      | .here => walk follow stack rest
      | .up => walk follow stack.tail rest
      | .name n =>
        match s.entry (s.top stack) n with
        | none => if rest.isEmpty then .ok (.at (.entry stack n none)) else .error .notFound
        | some i =>
          match s.linkTarget i with
          | some target =>
            if rest.isEmpty && !follow then .ok (.at (.entry stack n (some i)))
            else .ok (.link stack target rest)
          | none =>
            if rest.isEmpty then .ok (.at (.entry stack n (some i)))
            else walk follow ((n, i) :: stack) rest
    else .error .notADirectory

/-- Walk, following at most `links` links. -/
def resolve (follow : Bool) (links : Nat) (stack : Stack) (path : List Comp) :
    Except Errno Landing :=
  match s.walk follow stack path with
  | .error e => .error e
  | .ok (.at l) => .ok l
  | .ok (.link stack target rest) =>
    match links with
    | 0 => .error .filesystemLoop
    | links + 1 =>
      -- an absolute target starts over, a relative one goes on where the link is
      let stack := if target.head? = some 47 then [] else stack
      resolve follow links stack (components target ++ rest)

def locate (follow : Bool) (p : Path) : Except Errno Landing :=
  s.resolve follow maxLinks [] (p.map .name)

/-- The inode at the end of a path. -/
def found : Landing → Except Errno Inode
  | .here stack => .ok (s.top stack)
  | .entry _ _ (some i) => .ok i
  | .entry _ _ none => .error .notFound

/-- The inode that a path names. -/
def find (follow : Bool) (p : Path) : Except Errno Inode := do
  s.found (← s.locate follow p)

/-- `realpath`. -/
def canonicalize (path : List Comp) : Except Errno Path := do
  match ← s.resolve true maxLinks [] path with
  | .here stack => .ok stack.path
  | .entry stack n (some _) => .ok (stack.path ++ [n])
  | .entry _ _ none => .error .notFound

/-! ## Where names lead -/

/-- The inode that the names of `p` lead to from `i`, with no link followed. -/
abbrev leads (i : Inode) (p : Path) : Option Inode := descend s.entry i p

/-- In the subtree of `e`. -/
def Inside (e i : Inode) : Prop := ∃ p, s.leads e p = some i

/-- A tree: what is named exists, a directory has one name at most, and `/` has none. -/
structure WellFormed : Prop where
  rootDir : s.isDir s.root = true
  closed : ∀ d n i, s.entry d n = some i → i ∈ s.nodes
  unique : ∀ d n d' n' i, s.entry d n = some i → s.entry d' n' = some i → s.isDir i = true →
    d = d' ∧ n = n'
  root : ∀ d n, s.entry d n ≠ some s.root

variable {s}

theorem isDir_of_entry {d : Inode} {n : Name} {i : Inode} (h : s.entry d n = some i) :
    s.isDir d = true := by
  unfold entry at h
  unfold isDir
  split at h
  · rfl
  · cases h

theorem linkTarget_of_isDir {i : Inode} (h : s.isDir i = true) : s.linkTarget i = none := by
  unfold isDir at h
  unfold linkTarget
  split at h
  · next es hi => rw [hi]
  · cases h

theorem mem_of_isDir {i : Inode} (h : s.isDir i = true) : i ∈ s.nodes := by
  unfold isDir at h
  split at h
  · next es hi => exact Finmap.mem_of_lookup_eq_some hi
  · cases h

namespace WellFormed

theorem forest (h : s.WellFormed) : Forest s.entry (fun i => s.isDir i = true) s.root :=
  ⟨fun _ _ _ => isDir_of_entry, h.unique, h.root⟩

theorem mem_of_leads (h : s.WellFormed) {d i : Inode} (hd : d ∈ s.nodes) {p : Path}
    (hp : s.leads d p = some i) : i ∈ s.nodes := by
  induction p using List.reverseRecOn with
  | nil =>
    cases hp
    exact hd
  | append_singleton p n _ =>
    obtain ⟨c, -, hc⟩ := descend_concat_eq_some.mp hp
    exact h.closed c n i hc

end WellFormed

/-! ## The chain of a walk -/

/-- Each directory of the chain is an entry of the one before. -/
def Chained (s : Shape) : Stack → Prop
  | [] => True
  | (n, i) :: stack => s.entry (s.top stack) n = some i ∧ s.Chained stack

theorem Chained.nil : s.Chained [] := trivial

theorem Chained.push {stack : Stack} (h : s.Chained stack) {n : Name} {i : Inode}
    (hi : s.entry (s.top stack) n = some i) : s.Chained ((n, i) :: stack) := ⟨hi, h⟩

theorem Chained.tail {stack : Stack} (h : s.Chained stack) : s.Chained stack.tail := by
  cases stack with
  | nil => exact h
  | cons e stack => exact h.2

/-- The names of the chain lead to where the walk stands. -/
theorem Chained.leads {stack : Stack} (h : s.Chained stack) :
    s.leads s.root stack.path = some (s.top stack) := by
  induction stack with
  | nil => rfl
  | cons e stack ih =>
    obtain ⟨hi, hstack⟩ := h
    rw [Stack.path, List.map_cons, List.reverse_cons]
    exact descend_concat_eq_some.mpr ⟨s.top stack, ih hstack, hi⟩

/-- What a landing says about the tree. -/
def Landed (s : Shape) : Landing → Prop
  | .here stack => s.Chained stack
  | .entry stack n i => s.Chained stack ∧ s.isDir (s.top stack) = true ∧ i = s.entry (s.top stack) n

theorem walk_landed (follow : Bool) (path : List Comp) {stack : Stack} (h : s.Chained stack) :
    (∀ l, s.walk follow stack path = .ok (.at l) → s.Landed l) ∧
      ∀ st target rest, s.walk follow stack path = .ok (.link st target rest) → s.Chained st := by
  induction path generalizing stack with
  | nil =>
    refine ⟨?_, ?_⟩
    · rintro l ⟨⟩
      exact h
    · rintro st target rest ⟨⟩
  | cons c path ih =>
    have hat : ∀ {n : Name} {i : Option Inode}, s.isDir (s.top stack) = true →
        s.entry (s.top stack) n = i → s.Landed (.entry stack n i) := by
      rintro n i hdir rfl
      exact ⟨h, hdir, rfl⟩
    cases c with
    | here =>
      rw [walk]
      split
      · exact ih h
      · exact ⟨by rintro l ⟨⟩, by rintro st target rest ⟨⟩⟩
    | up =>
      rw [walk]
      split
      · exact ih h.tail
      · exact ⟨by rintro l ⟨⟩, by rintro st target rest ⟨⟩⟩
    | name n =>
      rw [walk]
      split
      · next hdir =>
        split
        · next hnone =>
          split
          · exact ⟨by rintro l ⟨⟩; exact hat hdir hnone, by rintro st target rest ⟨⟩⟩
          · exact ⟨by rintro l ⟨⟩, by rintro st target rest ⟨⟩⟩
        · next i hi =>
          split
          · split
            · exact ⟨by rintro l ⟨⟩; exact hat hdir hi, by rintro st target rest ⟨⟩⟩
            · exact ⟨by rintro l ⟨⟩, by rintro st target rest ⟨⟩; exact h⟩
          · split
            · exact ⟨by rintro l ⟨⟩; exact hat hdir hi, by rintro st target rest ⟨⟩⟩
            · exact ih (h.push hi)
      · exact ⟨by rintro l ⟨⟩, by rintro st target rest ⟨⟩⟩

theorem resolve_landed {follow : Bool} {links : Nat} {stack : Stack} {path : List Comp} {l : Landing}
    (h : s.Chained stack) (hl : s.resolve follow links stack path = .ok l) : s.Landed l := by
  induction links generalizing stack path with
  | zero =>
    rw [resolve] at hl
    obtain ⟨hat, -⟩ := walk_landed follow path h
    split at hl
    · cases hl
    · next l' hwalk =>
      cases hl
      exact hat l hwalk
    · cases hl
  | succ links ih =>
    rw [resolve] at hl
    obtain ⟨hat, hlink⟩ := walk_landed follow path h
    split at hl
    · cases hl
    · next l' hwalk =>
      cases hl
      exact hat l hwalk
    · next st target rest hwalk =>
      refine ih ?_ hl
      split
      · trivial
      · exact hlink st target rest hwalk

theorem locate_landed {follow : Bool} {p : Path} {l : Landing} (h : s.locate follow p = .ok l) :
    s.Landed l :=
  resolve_landed .nil h

/-- The path that `realpath` answers with leads somewhere without a link. -/
theorem canonicalize_leads {path : List Comp} {p : Path} (h : s.canonicalize path = .ok p) :
    ∃ i, s.leads s.root p = some i := by
  unfold canonicalize at h
  cases hl : s.resolve true maxLinks [] path with
  | error e =>
    rw [hl] at h
    cases h
  | ok l =>
    rw [hl] at h
    have hlanded := resolve_landed .nil hl
    cases l with
    | here stack =>
      cases h
      exact ⟨_, Chained.leads hlanded⟩
    | entry stack n i =>
      cases i with
      | none => cases h
      | some i =>
        cases h
        obtain ⟨hchain, -, hi⟩ := hlanded
        exact ⟨i, descend_concat_eq_some.mpr ⟨_, hchain.leads, hi.symm⟩⟩

/-! ## Paths without a link -/

/-- A walk along `p` from `d` meets no link, at the end of the path included if `follow`. -/
def straight (s : Shape) (follow : Bool) : Inode → Path → Bool
  | _, [] => true
  | d, n :: p =>
    match s.entry d n with
    | none => true
    | some i => if (s.linkTarget i).isSome then p.isEmpty && !follow else s.straight follow i p

/-- The chain of a walk along `p`. -/
def climb (s : Shape) : Stack → Path → Option Stack
  | stack, [] => some stack
  | stack, n :: p => (s.entry (s.top stack) n).bind fun i => s.climb ((n, i) :: stack) p

/-- The chain climbs where the names lead. -/
theorem leads_of_climb {p : Path} {stack st : Stack} (hst : s.climb stack p = some st) :
    s.leads (s.top stack) p = some (s.top st) := by
  induction p generalizing stack with
  | nil =>
    cases hst
    rfl
  | cons n p ih =>
    obtain ⟨i, hi, hrest⟩ := Option.bind_eq_some_iff.mp hst
    exact Option.bind_eq_some_iff.mpr ⟨i, hi, ih hrest⟩

theorem climb_subset {p : Path} {stack st : Stack} (hst : s.climb stack p = some st) :
    ∀ e ∈ stack, e ∈ st := by
  induction p generalizing stack with
  | nil =>
    cases hst
    exact fun _ => id
  | cons n p ih =>
    obtain ⟨i, hi, hrest⟩ := Option.bind_eq_some_iff.mp hst
    exact fun e he => ih hrest e (List.mem_cons_of_mem _ he)

/-- What the path passes is in the chain. -/
theorem mem_climb {p q : Path} {n : Name} {stack st : Stack} {i : Inode}
    (hst : s.climb stack (p ++ n :: q) = some st)
    (hi : s.leads (s.top stack) (p ++ [n]) = some i) : i ∈ st.map Prod.snd := by
  induction p generalizing stack with
  | nil =>
    obtain ⟨j, hj, hrest⟩ := Option.bind_eq_some_iff.mp hst
    obtain ⟨j', hj', hnil⟩ := Option.bind_eq_some_iff.mp hi
    obtain rfl : j = j' := Option.some.inj (hj.symm.trans hj')
    exact List.mem_map.mpr ⟨(n, j), climb_subset hrest _ List.mem_cons_self, Option.some.inj hnil⟩
  | cons m p ih =>
    obtain ⟨j, hj, hrest⟩ := Option.bind_eq_some_iff.mp hst
    obtain ⟨j', hj', hlead⟩ := Option.bind_eq_some_iff.mp hi
    obtain rfl : j = j' := Option.some.inj (hj.symm.trans hj')
    exact ih hrest hlead

/-- Where a straight path can land. -/
theorem walk_straight {follow : Bool} {p : Path} {stack : Stack}
    (h : s.straight follow (s.top stack) p = true) {r : Stop}
    (hr : s.walk follow stack (p.map .name) = .ok r) :
    p = [] ∧ r = .at (.here stack) ∨ ∃ q n st, p = q ++ [n] ∧ s.climb stack q = some st ∧
      r = .at (.entry st n (s.entry (s.top st) n)) := by
  induction p generalizing stack with
  | nil =>
    cases hr
    exact .inl ⟨rfl, rfl⟩
  | cons n p ih =>
    refine .inr ?_
    rw [List.map_cons, walk] at hr
    rw [straight] at h
    split at hr
    · split at hr
      · next hnone =>
        split at hr
        · next hend =>
          cases hr
          rw [List.isEmpty_iff, List.map_eq_nil_iff] at hend
          subst hend
          exact ⟨[], n, stack, rfl, rfl, by rw [hnone]⟩
        · cases hr
      · next i hi =>
        rw [hi] at h
        dsimp only at h
        split at hr
        · next target hlink =>
          rw [hlink, Option.isSome_some, if_pos rfl, Bool.and_eq_true, List.isEmpty_iff] at h
          obtain ⟨rfl, hnot⟩ := h
          rw [List.map_nil, List.isEmpty_nil, Bool.true_and, hnot, if_pos rfl] at hr
          cases hr
          exact ⟨[], n, stack, rfl, rfl, by rw [hi]⟩
        · next hlink =>
          rw [hlink, Option.isSome_none, if_neg Bool.false_ne_true] at h
          split at hr
          · next hend =>
            cases hr
            rw [List.isEmpty_iff, List.map_eq_nil_iff] at hend
            subst hend
            exact ⟨[], n, stack, rfl, rfl, by rw [hi]⟩
          · next hend =>
            have hrest : s.straight follow (s.top ((n, i) :: stack)) p = true := h
            rcases ih hrest hr with ⟨rfl, -⟩ | ⟨q, m, st, rfl, hst, hr'⟩
            · exact absurd rfl hend
            · exact ⟨n :: q, m, st, rfl, Option.bind_eq_some_iff.mpr ⟨i, hi, hst⟩, hr'⟩
    · cases hr

/-- A straight path is located without following anything. -/
theorem locate_straight {follow : Bool} {p : Path} (h : s.straight follow s.root p = true)
    {l : Landing} (hl : s.locate follow p = .ok l) :
    p = [] ∧ l = .here [] ∨ ∃ q n st, p = q ++ [n] ∧ s.climb [] q = some st ∧
      l = .entry st n (s.entry (s.top st) n) := by
  have hroot : s.straight follow (s.top []) p = true := h
  unfold locate at hl
  rw [resolve] at hl
  split at hl
  · cases hl
  · next l' hwalk =>
    cases hl
    rcases walk_straight hroot hwalk with ⟨hp, heq⟩ | ⟨q, n, st, hp, hst, heq⟩
    · cases heq
      exact .inl ⟨hp, rfl⟩
    · cases heq
      exact .inr ⟨q, n, st, hp, hst, rfl⟩
  · next st target rest hwalk =>
    rcases walk_straight hroot hwalk with ⟨-, heq⟩ | ⟨q, n, st, -, -, heq⟩
    · cases heq
    · cases heq

theorem straight_of_leads {d i : Inode} {p : Path} (h : s.leads d p = some i) :
    s.straight false d p = true := by
  induction p generalizing d with
  | nil => rfl
  | cons n p ih =>
    obtain ⟨j, hj, hrest⟩ := Option.bind_eq_some_iff.mp h
    rw [straight, hj]
    dsimp only
    split
    · next hlink =>
      -- nothing is below a link, so the path ends here
      cases p with
      | nil => rfl
      | cons m p =>
        obtain ⟨k, hk, -⟩ := Option.bind_eq_some_iff.mp hrest
        rw [linkTarget_of_isDir (isDir_of_entry hk)] at hlink
        cases hlink
    · exact ih hrest

/-- A path goes straight on behind a front that ends at no link. -/
theorem straight_append {follow : Bool} {d : Inode} {p q : Path} (hq : q ≠ []) :
    s.straight follow d (p ++ q) = true ↔
      s.straight true d p = true ∧ ∀ c, s.leads d p = some c → s.straight follow c q = true := by
  induction p generalizing d with
  | nil =>
    constructor
    · rintro h
      refine ⟨rfl, ?_⟩
      rintro c ⟨⟩
      exact h
    · rintro ⟨-, h⟩
      exact h d rfl
  | cons n p ih =>
    rw [List.cons_append, straight, straight]
    cases hn : s.entry d n with
    | none => simp [hn]
    | some i =>
      have hlead : s.leads d (n :: p) = s.leads i p := by
        show (s.entry d n).bind _ = _
        rw [hn, Option.bind_some]
      rw [hlead]
      dsimp only
      split
      · simp [hq]
      · exact ih

theorem straight_mono {follow : Bool} {d : Inode} {p : Path} (h : s.straight true d p = true) :
    s.straight follow d p = true := by
  induction p generalizing d with
  | nil => rfl
  | cons n p ih =>
    rw [straight] at h ⊢
    split at h
    · rfl
    · split at h
      · simp at h
      · next hlink =>
        rw [if_neg hlink]
        exact ih h

/-- A path that leads to no link is straight to its end. -/
theorem straight_true_of_leads {d i : Inode} {p : Path} (h : s.leads d p = some i)
    (hi : s.linkTarget i = none) : s.straight true d p = true := by
  induction p using List.reverseRecOn generalizing i with
  | nil => rfl
  | append_singleton p n ih =>
    obtain ⟨c, hc, hn⟩ := descend_concat_eq_some.mp h
    refine (straight_append (List.cons_ne_nil n [])).mpr ⟨?_, ?_⟩
    · exact ih hc (linkTarget_of_isDir (isDir_of_entry hn))
    · intro c' hc'
      cases hc.symm.trans hc'
      rw [straight, hn]
      dsimp only
      rw [hi]
      rfl

/-- One more name keeps a path straight that ends at no link, as long as links are not followed. -/
theorem straight_concat {d : Inode} {p : Path} (h : s.straight true d p = true) (n : Name) :
    s.straight false d (p ++ [n]) = true := by
  refine (straight_append (List.cons_ne_nil n [])).mpr ⟨h, ?_⟩
  intro c _
  rw [straight]
  split
  · rfl
  · split <;> rfl

/-- Along a straight path the kernel finds what the names lead to. -/
theorem leads_of_find {follow : Bool} {p : Path} (h : s.straight follow s.root p = true) {i : Inode}
    (hi : s.find follow p = .ok i) : s.leads s.root p = some i := by
  unfold find at hi
  cases hl : s.locate follow p with
  | error e =>
    rw [hl] at hi
    cases hi
  | ok l =>
    rw [hl] at hi
    rcases locate_straight h hl with ⟨rfl, rfl⟩ | ⟨q, n, st, rfl, hst, rfl⟩
    · cases hi
      rfl
    · rw [descend_concat_eq_some]
      refine ⟨s.top st, leads_of_climb hst, ?_⟩
      cases hj : s.entry (s.top st) n with
      | none =>
        rw [hj] at hi
        cases hi
      | some j =>
        rw [hj] at hi
        cases hi
        rfl

theorem walk_of_leads {p : Path} {stack : Stack} {i : Inode}
    (h : s.leads (s.top stack) p = some i) :
    ∃ l, s.walk false stack (p.map .name) = .ok (.at l) ∧ s.found l = .ok i := by
  induction p generalizing stack with
  | nil => exact ⟨_, rfl, congrArg Except.ok (Option.some.inj h)⟩
  | cons n p ih =>
    obtain ⟨j, hj, hrest⟩ := Option.bind_eq_some_iff.mp h
    rw [List.map_cons, walk, if_pos (isDir_of_entry hj), hj]
    dsimp only
    cases p with
    | nil =>
      refine ⟨.entry stack n (some j), ?_, congrArg Except.ok (Option.some.inj hrest)⟩
      split <;> rfl
    | cons m p =>
      obtain ⟨k, hk, -⟩ := Option.bind_eq_some_iff.mp hrest
      rw [linkTarget_of_isDir (isDir_of_entry hk)]
      have hpush : s.leads (s.top ((n, j) :: stack)) (m :: p) = some i := hrest
      exact ih hpush

/-- A path that leads somewhere is found, with no link in the way. -/
theorem find_of_leads {p : Path} {i : Inode} (h : s.leads s.root p = some i) :
    s.find false p = .ok i := by
  have htop : s.leads (s.top []) p = some i := h
  obtain ⟨l, hl, hi⟩ := walk_of_leads htop
  have hlocate : s.locate false p = .ok l := by
    unfold locate
    rw [resolve, hl]
  unfold find
  rw [hlocate]
  exact hi

/-! ## Behind a directory -/

/-- One name behind a directory: how a walk that does not follow the last link goes on. -/
theorem walk_false_name {stack : Stack} {n : Name} {i : Inode}
    (h : s.entry (s.top stack) n = some i) :
    s.walk false stack [.name n] = .ok (.at (.entry stack n (some i))) := by
  simp only [walk, isDir_of_entry h, h]
  cases s.linkTarget i <;> rfl

theorem isDir_of_walk {follow : Bool} {c : Comp} {path : List Comp} {stack : Stack} {r : Stop}
    (h : s.walk follow stack (c :: path) = .ok r) : s.isDir (s.top stack) = true := by
  by_contra hdir
  cases c <;> simp only [walk, hdir, if_false, reduceCtorEq] at h

/-- How a walk that stopped at `r` goes when its last link is to be followed, and when there is one
more name. -/
def GoesOn (s : Shape) (stack : Stack) (path : List Comp) : Stop → Prop
  | .at l => ∀ d, s.found l = .ok d → s.isDir d = true →
      s.walk true stack path = .ok (.at l) ∧ ∀ n i, s.entry d n = some i →
        ∃ st, s.walk false stack (path ++ [.name n]) = .ok (.at (.entry st n (some i)))
  | .link st target rest =>
      s.walk true stack path = .ok (.link st target rest) ∧
        ∀ n, s.walk false stack (path ++ [.name n]) = .ok (.link st target (rest ++ [.name n]))

theorem walk_goesOn {path : List Comp} {stack : Stack} {r : Stop}
    (h : s.walk false stack path = .ok r) : s.GoesOn stack path r := by
  induction path generalizing stack with
  | nil =>
    cases h
    rintro d ⟨⟩ -
    exact ⟨rfl, fun n i hi => ⟨stack, walk_false_name hi⟩⟩
  | cons c path ih =>
    have htop := isDir_of_walk h
    have hmore : ∀ n, (path ++ [Comp.name n]).isEmpty = false := by simp
    unfold GoesOn
    cases c with
    | here =>
      simp only [List.cons_append, walk, htop, if_true] at h ⊢
      exact ih h
    | up =>
      simp only [List.cons_append, walk, htop, if_true] at h ⊢
      exact ih h
    | name m =>
      simp only [List.cons_append, walk, htop, if_true, hmore] at h ⊢
      cases hentry : s.entry (s.top stack) m with
      | none =>
        simp only [hentry] at h
        split at h
        · cases h
          rintro d ⟨⟩
        · cases h
      | some j =>
        cases hlink : s.linkTarget j with
        | some target =>
          simp only [hentry, hlink] at h ⊢
          split at h
          · cases h
            rintro d ⟨⟩ hdir
            rw [linkTarget_of_isDir hdir] at hlink
            cases hlink
          · cases h
            simp
        | none =>
          simp only [hentry, hlink] at h ⊢
          cases path with
          | nil =>
            cases h
            rintro d ⟨⟩ hdir
            exact ⟨rfl, fun n i hi => ⟨_, @walk_false_name s ((m, j) :: stack) n i hi⟩⟩
          | cons c path => exact ih h

/-- A walk along a path that leads to a directory goes on there. -/
theorem walk_append_of_leads (follow : Bool) {p : Path} {stack : Stack} {d : Inode}
    (h : s.leads (s.top stack) p = some d) (hdir : s.isDir d = true) {rest : List Comp}
    (hrest : rest ≠ []) :
    ∃ st, s.top st = d ∧ s.walk follow stack (p.map .name ++ rest) = s.walk follow st rest := by
  induction p generalizing stack with
  | nil => exact ⟨stack, Option.some.inj h, rfl⟩
  | cons n p ih =>
    obtain ⟨j, hj, hlead⟩ := Option.bind_eq_some_iff.mp h
    have hplain : s.linkTarget j = none := by
      cases p with
      | nil =>
        cases hlead
        exact linkTarget_of_isDir hdir
      | cons m p =>
        obtain ⟨k, hk, -⟩ := Option.bind_eq_some_iff.mp hlead
        exact linkTarget_of_isDir (isDir_of_entry hk)
    have hmore : (p.map Comp.name ++ rest).isEmpty = false := by
      rw [List.isEmpty_eq_false_iff]
      exact fun hnil => hrest (List.append_eq_nil_iff.mp hnil).2
    have hpush : s.leads (s.top ((n, j) :: stack)) p = some d := hlead
    obtain ⟨st, hst, hwalk⟩ := ih hpush
    refine ⟨st, hst, ?_⟩
    rw [List.map_cons, List.cons_append, walk, if_pos (isDir_of_entry hj), hj]
    dsimp only
    rw [hplain, hmore]
    exact hwalk

theorem resolve_of_at {follow : Bool} {links : Nat} {path : List Comp} {stack : Stack} {l : Landing}
    (h : s.walk follow stack path = .ok (.at l)) : s.resolve follow links stack path = .ok l := by
  unfold resolve
  rw [h]

theorem resolve_dir {links : Nat} {path : List Comp} {stack : Stack} {l : Landing} {d : Inode}
    (h : s.resolve false links stack path = .ok l) (hl : s.found l = .ok d)
    (hdir : s.isDir d = true) :
    s.resolve true links stack path = .ok l ∧ ∀ n i, s.entry d n = some i →
      ∃ st, s.resolve false links stack (path ++ [.name n]) = .ok (.entry st n (some i)) := by
  have hat : ∀ {links stack path}, s.walk false stack path = .ok (.at l) →
      s.resolve true links stack path = .ok l ∧ ∀ n i, s.entry d n = some i →
        ∃ st, s.resolve false links stack (path ++ [.name n]) = .ok (.entry st n (some i)) := by
    intro links stack path hwalk
    obtain ⟨htrue, hnames⟩ := walk_goesOn hwalk d hl hdir
    refine ⟨resolve_of_at htrue, fun n i hi => ?_⟩
    obtain ⟨st, hst⟩ := hnames n i hi
    exact ⟨st, resolve_of_at hst⟩
  induction links generalizing stack path with
  | zero =>
    rw [resolve] at h
    split at h
    · cases h
    · next l' hwalk =>
      cases h
      exact hat hwalk
    · cases h
  | succ links ih =>
    rw [resolve] at h
    split at h
    · cases h
    · next l' hwalk =>
      cases h
      exact hat hwalk
    · next st target rest hwalk =>
      obtain ⟨htrue, hnames⟩ := walk_goesOn hwalk
      obtain ⟨hfollow, hentries⟩ := ih h
      refine ⟨by rw [resolve, htrue]; exact hfollow, fun n i hi => ?_⟩
      obtain ⟨st', hst'⟩ := hentries n i hi
      refine ⟨st', ?_⟩
      rw [resolve, hnames n]
      rw [List.append_assoc] at hst'
      exact hst'

/-- Nothing is found behind an empty directory. -/
theorem find_behind_empty {follow : Bool} {p : Path} {d i : Inode} (h : s.leads s.root p = some d)
    (hdir : s.isDir d = true) (hempty : ∀ m, s.entry d m = none) (n : Name) (q : Path) :
    s.find follow (p ++ n :: q) ≠ .ok i := by
  intro hfind
  obtain ⟨l, hl, hfound⟩ := ok_of_bind hfind
  have htop : s.leads (s.top []) p = some d := h
  obtain ⟨st, hst, hwalk⟩ := walk_append_of_leads follow htop hdir
    (List.cons_ne_nil (Comp.name n) (q.map .name))
  unfold locate at hl
  rw [List.map_append, List.map_cons, resolve, hwalk, walk, hst, if_pos hdir, hempty] at hl
  dsimp only at hl
  split at hl
  · cases hl
  · next l' hwalked =>
    split at hwalked
    · cases hwalked
      cases hl
      cases hfound
    · cases hwalked
  · next hwalked =>
    split at hwalked
    · cases hwalked
    · cases hwalked

section Dir

variable {p : Path} {d : Inode} (h : s.find false p = .ok d) (hdir : s.isDir d = true)

include h hdir

/-- A directory is found in either way. -/
theorem find_true_of_isDir : s.find true p = .ok d := by
  obtain ⟨l, hl, hd⟩ := ok_of_bind h
  unfold find locate
  rw [(resolve_dir hl hd hdir).1]
  exact hd

/-- Its entries are found behind it. -/
theorem find_entry {n : Name} {i : Inode} (hi : s.entry d n = some i) :
    s.find false (p ++ [n]) = .ok i := by
  obtain ⟨l, hl, hd⟩ := ok_of_bind h
  obtain ⟨st, hst⟩ := (resolve_dir hl hd hdir).2 n i hi
  unfold find locate
  rw [List.map_append, List.map_singleton, hst]
  rfl

end Dir

end Shape

end NessieStore.Nfs
