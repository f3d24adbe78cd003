import NessieStore.Lib.Breadth
import NessieStore.Lib.Program
import NessieStore.Lib.Run
import NessieStore.Reapi.Boundary

/-!
# GetTree

`collect_tree` and `get_tree` (`nessie-reapi`, `services/cas.rs`): the directories below a root,
breadth first, in pages whose tokens count what has been delivered. Every call walks the tree again
and skips what its token says.

The store behind the face is any finite one (`FiniteCas`). How a blob decodes as a `Directory`
message is a parameter, and of that message only the child nodes are read. `get_tree` answers with
the messages of its stream; a client that goes away has received a front of them.
-/

set_option autoImplicit false

namespace NessieStore.Reapi

open Lib

/-! ## The walk -/

/-- `reapi::DirectoryNode`. -/
structure DirectoryNode where
  name : Text
  digest : Option Digest

/-- `reapi::Directory`; `others` is what the walk only passes on: files, symlinks and properties. -/
structure Directory (F : Type) where
  directories : List DirectoryNode
  others : F

/-- A `CasBackend` that holds finitely many blobs, as many as a `usize` counts. A reader is what
`read_to_end` makes of it: all bytes, or the text of an error. -/
structure FiniteCas where
  get : NessieStore.Digest → Except BackendError (Except String Bytes)
  held : Finset NessieStore.Digest
  mem_held : ∀ {d reader}, get d = .ok reader → d ∈ held
  counted : held.card < 2 ^ 64

def FiniteCas.readBlobBytes (cas : FiniteCas) (d : NessieStore.Digest) : Except Status Bytes :=
  match cas.get d with
  | .error e => .error (.backend e)
  | .ok (.error e) => .error (.new .internal ("reading Directory blob: " ++ e))
  | .ok (.ok bytes) => .ok bytes

section Walk

variable {F : Type} (debug : Text → String) (decode : Bytes → Except String (Directory F))

/-- The digests of the child nodes that have one. -/
def children (dir : Directory F) : Except Status (List NessieStore.Digest) :=
  (dir.directories.filterMap DirectoryNode.digest).mapM (toNative debug)

/-- The body of the loop of `collect_tree`: a directory, and what goes on the queue. -/
def visit (cas : FiniteCas) (d : NessieStore.Digest) :
    Except Status (Directory F × List NessieStore.Digest) := do
  let bytes ← cas.readBlobBytes d
  match decode bytes with
  | .error e => .error (.bad ("blob is not a REAPI Directory: " ++ e))
  | .ok dir => return (dir, ← children debug dir)

/-- A directory that could be read is held. -/
theorem mem_held_of_visit {cas : FiniteCas} {d : NessieStore.Digest}
    {r : Directory F × List NessieStore.Digest} (h : visit debug decode cas d = .ok r) :
    d ∈ cas.held := by
  obtain ⟨bytes, hbytes, -⟩ := ok_of_bind h
  unfold FiniteCas.readBlobBytes at hbytes
  split at hbytes
  · cases hbytes
  · cases hbytes
  · next hget => exact cas.mem_held hget

/-- The directories of a store, as a graph. -/
def tree (cas : FiniteCas) : Lookup NessieStore.Digest (Directory F) Status :=
  ⟨visit debug decode cas, cas.held, mem_held_of_visit debug decode⟩

def collectTree (cas : FiniteCas) (root : NessieStore.Digest) : Except Status (List (Directory F)) :=
  (tree debug decode cas).sweep ∅ [root] []

/-! ## The pages -/

structure GetTreeRequest where
  rootDigest : Option Digest
  pageSize : Int32
  pageToken : Text

structure GetTreeResponse (F : Type) where
  directories : List (Directory F)
  nextPageToken : Text

def defaultGetTreePageSize : Nat := 1000

/-- How many directories a page has. -/
def pageSize (n : Int32) : Nat := if n ≤ 0 then defaultGetTreePageSize else n.toInt.toNat

theorem pageSize_pos (n : Int32) : 0 < pageSize n := by
  unfold pageSize
  split
  · decide
  · next h =>
    have hpos : 0 < n.toInt := by
      rw [Int32.le_iff_toInt_le] at h
      exact not_le.mp h
    omega

/-- The loop of `get_tree`, once the tree has been collected. -/
def sendPages (size : Nat) (hsize : 0 < size) (remaining : List (Directory F)) (delivered : Nat) :
    List (GetTreeResponse F) :=
  let take := min size remaining.length
  let rest := remaining.drop take
  if _hrest : rest = [] then [⟨remaining.take take, []⟩]
  else ⟨remaining.take take, writeU64 (UInt64.ofNat (delivered + take))⟩ ::
    sendPages size hsize rest (delivered + take)
termination_by remaining.length
decreasing_by
  have hmore : 0 < (remaining.drop (min size remaining.length)).length :=
    List.length_pos_of_ne_nil _hrest
  rw [List.length_drop] at hmore ⊢
  omega

/-- What a page token says. -/
def parsePageToken (token : Text) : Except Status Nat :=
  if token = [] then .ok 0
  else
    match parseU64 token with
    | some n => .ok n.toNat
    | none => .error (.bad "invalid page_token")

/-- `get_tree`: a refusal, or the messages of the stream. -/
def getTree (cas : FiniteCas) (req : GetTreeRequest) :
    Except Status (List (Except Status (GetTreeResponse F))) := do
  match req.rootDigest with
  | none => .error (.bad "missing root_digest")
  | some root => do
    let root ← toNative debug root
    let skip ← parsePageToken req.pageToken
    match collectTree debug decode cas root with
    | .error e => .ok [.error e]
    | .ok all =>
      let start := min skip all.length
      .ok ((sendPages (pageSize req.pageSize) (pageSize_pos req.pageSize) (all.drop start) start).map .ok)

/-! ## A client that resumes -/

/-- A client: the last token that it has received, the directories so far, and whether the token was
the empty one. -/
structure TreeClient (F : Type) where
  token : Text
  received : List (Directory F)
  done : Bool

def TreeClient.start : TreeClient F := ⟨[], [], false⟩

/-- A call for pages of `call.1` directories, of which the client reads `call.2`. -/
def treeStep (cas : FiniteCas) (root : Digest) (c : TreeClient F) (call : Int32 × Nat) :
    Option (TreeClient F) :=
  if c.done then none
  else
    match getTree debug decode cas ⟨some root, call.1, c.token⟩ with
    | .error _ => none
    | .ok stream =>
      match (stream.take call.2).mapM Except.toOption with
      | none => none
      | some pages =>
        let last := pages.getLast?.map GetTreeResponse.nextPageToken
        some ⟨last.getD c.token, c.received ++ pages.flatMap GetTreeResponse.directories,
          last = some []⟩

end Walk

/-! ## What a client has -/

section Resume

variable {F : Type} {debug : Text → String} {decode : Bytes → Except String (Directory F)}
  {cas : FiniteCas} {root : Digest} {d : NessieStore.Digest} {all : List (Directory F)}

/-- Pages that bring a client from the first `k` directories to the first `k'`. -/
structure Pages (all : List (Directory F)) (k k' : Nat) (pages : List (GetTreeResponse F)) : Prop where
  le : k ≤ k'
  bound : k' ≤ all.length
  directories : all.take k ++ pages.flatMap GetTreeResponse.directories = all.take k'
  nothing : pages = [] → k' = k
  /-- The last one ends the list, or its token counts what there is so far. -/
  last : ∀ p ∈ pages.getLast?, p.nextPageToken = [] ∧ k' = all.length ∨
    p.nextPageToken = writeU64 (UInt64.ofNat k') ∧ k < k'

theorem Pages.none {k : Nat} (hk : k ≤ all.length) : Pages all k k [] where
  le := le_rfl
  bound := hk
  directories := List.append_nil _
  nothing _ := rfl
  last := by simp

/-- By induction on the loop: the first `r` messages. -/
theorem pages_of_sendPages {size : Nat} (hsize : 0 < size) {k : Nat} (hk : k ≤ all.length)
    {remaining : List (Directory F)} (hremaining : remaining = all.drop k) (r : Nat) :
    ∃ k', Pages all k k' ((sendPages size hsize remaining k).take r) := by
  fun_induction sendPages size hsize remaining k generalizing r with
  | case1 remaining k take rest hrest =>
    cases r with
    | zero => exact ⟨k, .none hk⟩
    | succ r =>
      have hall : remaining.take take = remaining := by
        rw [List.take_eq_self_iff]
        exact List.drop_eq_nil_iff.mp hrest
      refine ⟨all.length, hk, le_rfl, ?_, by simp, by simp⟩
      rw [List.take_succ_cons, List.take_nil, List.flatMap_singleton, hall, hremaining,
        List.take_append_drop, List.take_length]
  | case2 remaining k take rest hrest ih =>
    cases r with
    | zero => exact ⟨k, .none hk⟩
    | succ r =>
      have hmore : 0 < (remaining.drop take).length := List.length_pos_of_ne_nil hrest
      rw [List.length_drop] at hmore
      have hlength : remaining.length = all.length - k := by rw [hremaining, List.length_drop]
      have htake : 0 < take := by omega
      have hnext : rest = all.drop (k + take) := by
        rw [show rest = remaining.drop take from rfl, hremaining, List.drop_drop]
      have hpage : all.take k ++ remaining.take take = all.take (k + take) := by
        rw [hremaining, List.take_add]
      obtain ⟨k', hpages⟩ := ih (by omega) hnext r
      have hle := hpages.le
      refine ⟨k', by omega, hpages.bound, ?_, by simp, ?_⟩
      · rw [List.take_succ_cons, List.flatMap_cons, ← List.append_assoc, hpage, hpages.directories]
      · rw [List.take_succ_cons]
        intro p hp
        cases htail : (sendPages size hsize rest (k + take)).take r with
        | nil =>
          rw [htail] at hp hpages
          obtain rfl := hpages.nothing rfl
          cases hp
          exact .inr ⟨rfl, by omega⟩
        | cons q tail =>
          rw [htail] at hp hpages
          rw [List.getLast?_cons_cons] at hp
          rcases hpages.last p hp with hlast | ⟨htoken, hlt⟩
          · exact .inl hlast
          · exact .inr ⟨htoken, by omega⟩

theorem pages_ne_nil {size : Nat} (hsize : 0 < size) (remaining : List (Directory F)) (k : Nat)
    {r : Nat} (hr : 0 < r) : (sendPages size hsize remaining k).take r ≠ [] := by
  rw [sendPages]
  obtain ⟨r, rfl⟩ := Nat.exists_eq_succ_of_ne_zero (Nat.ne_of_gt hr)
  split <;> simp

theorem parsePageToken_writeU64 {k : Nat} (hk : k < 2 ^ 64) :
    parsePageToken (writeU64 (UInt64.ofNat k)) = .ok k := by
  rw [parsePageToken, if_neg (writeU64_ne_nil _), parseU64_writeU64]
  exact congrArg Except.ok (UInt64.toNat_ofNat_of_lt' hk)

theorem mapM_toOption (l : List (GetTreeResponse F)) :
    (l.map (Except.ok : _ → Except Status _)).mapM Except.toOption = some l := by
  induction l with
  | nil => rfl
  | cons p l ih =>
    rw [List.map_cons, List.mapM_cons, ih]
    rfl

/-- A client that has the first directories, and a token that says how many. -/
structure Resumed (all : List (Directory F)) (c : TreeClient F) (k : Nat) : Prop where
  bound : k ≤ all.length
  received : c.received = all.take k
  token : c.done = false → parsePageToken c.token = .ok k
  finished : c.done = true → k = all.length

theorem Resumed.start : Resumed all TreeClient.start 0 where
  bound := Nat.zero_le _
  received := rfl
  token _ := rfl
  finished h := by cases h

section Step

variable (hroot : toNative debug root = .ok d) (hall : collectTree debug decode cas d = .ok all)
  (hlength : all.length < 2 ^ 64)

include hroot hall hlength

/-- The step lemma: a client that is not done is served, and gets on if it reads at all. -/
theorem Resumed.step {c : TreeClient F} {k : Nat} (h : Resumed all c k) (hmore : c.done = false)
    (call : Int32 × Nat) :
    ∃ c' k', treeStep debug decode cas root c call = some c' ∧ Resumed all c' k' ∧
      (0 < call.2 → c'.done = true ∨ k < k') := by
  have hskip : min k all.length = k := Nat.min_eq_left h.bound
  have hget : getTree debug decode cas ⟨some root, call.1, c.token⟩ =
      .ok ((sendPages (pageSize call.1) (pageSize_pos call.1) (all.drop k) k).map .ok) := by
    unfold getTree
    simp only [hroot, h.token hmore, hall, hskip, bind, Except.bind]
  obtain ⟨k', hpages⟩ := pages_of_sendPages (pageSize_pos call.1) h.bound rfl call.2
  have hread := pages_ne_nil (r := call.2) (pageSize_pos call.1) (all.drop k) k
  unfold treeStep
  rw [hmore, if_neg Bool.false_ne_true, hget]
  simp only [← List.map_take, mapM_toOption]
  generalize (sendPages (pageSize call.1) (pageSize_pos call.1) (all.drop k) k).take call.2 = pages
    at hpages hread ⊢
  have hreceived : c.received ++ pages.flatMap GetTreeResponse.directories = all.take k' := by
    rw [h.received, hpages.directories]
  refine ⟨_, k', rfl, ?_⟩
  cases hlast : pages.getLast? with
  | none =>
    have hnil := List.getLast?_eq_none_iff.mp hlast
    obtain rfl := hpages.nothing hnil
    refine ⟨⟨h.bound, hreceived, fun _ => h.token hmore, ?_⟩, fun hr => absurd hnil (hread hr)⟩
    simp
  | some p =>
    rcases hpages.last p hlast with ⟨htoken, hend⟩ | ⟨htoken, hlt⟩
    · refine ⟨⟨hpages.bound, hreceived, ?_, fun _ => hend⟩, fun _ => .inl ?_⟩
      · simp [htoken]
      · simp [htoken]
    · refine ⟨⟨hpages.bound, hreceived, ?_, ?_⟩, fun _ => .inr hlt⟩
      · intro _
        have hk' := hpages.bound
        simp only [Option.map_some, Option.getD_some, htoken]
        exact parsePageToken_writeU64 (by omega)
      · simp [htoken, writeU64_ne_nil]

/-- The run lemma. -/
theorem resumed_of_run {calls : List (Int32 × Nat)} {c : TreeClient F}
    (h : Run (treeStep debug decode cas root) (fun _ _ => True) TreeClient.start calls c) :
    ∃ k, Resumed all c k := by
  refine h.keeps (I := fun c => ∃ k, Resumed all c k) ?_ ⟨0, .start⟩
  rintro c c' call - ⟨k, hc⟩ hstep
  have hmore : c.done = false := by
    by_contra hdone
    rw [Bool.not_eq_false] at hdone
    rw [treeStep, if_pos hdone] at hstep
    cases hstep
  obtain ⟨c'', k', hstep', hc', -⟩ := hc.step hroot hall hlength hmore call
  rw [hstep] at hstep'
  cases hstep'
  exact ⟨k', hc'⟩

end Step

end Resume

/-! ## Completeness -/

/-- A message is the stored one: the bytes under the digest, decoded. -/
def StoredAs {F : Type} (decode : Bytes → Except String (Directory F)) (cas : FiniteCas)
    (d : NessieStore.Digest) (dir : Directory F) : Prop :=
  ∃ bytes, cas.get d = .ok (.ok bytes) ∧ decode bytes = .ok dir

/-- The directory stored under `d` has a child node whose digest is that of `c`. -/
def Child {F : Type} (debug : Text → String) (decode : Bytes → Except String (Directory F))
    (cas : FiniteCas) (d c : NessieStore.Digest) : Prop :=
  ∃ dir node r, StoredAs decode cas d dir ∧ node ∈ dir.directories ∧ node.digest = some r ∧
    toNative debug r = .ok c

/-- The digests of the child nodes are well formed. -/
def Directory.WellFormed {F : Type} (debug : Text → String) (dir : Directory F) : Prop :=
  ∀ node ∈ dir.directories, ∀ r, node.digest = some r → ∃ c, toNative debug r = .ok c

section Complete

variable {F : Type} {debug : Text → String} {decode : Bytes → Except String (Directory F)}
  {cas : FiniteCas} {d : NessieStore.Digest} {dir : Directory F}

theorem StoredAs.unique {dir' : Directory F} (h : StoredAs decode cas d dir)
    (h' : StoredAs decode cas d dir') : dir' = dir := by
  obtain ⟨bytes, hget, hdecode⟩ := h
  obtain ⟨bytes', hget', hdecode'⟩ := h'
  rw [hget] at hget'
  cases hget'
  rw [hdecode] at hdecode'
  cases hdecode'
  rfl

/-- Where every digest is well formed, all are converted. -/
theorem mapM_toNative {rs : List Digest} (h : ∀ r ∈ rs, ∃ c, toNative debug r = .ok c) :
    ∃ cs, rs.mapM (toNative debug) = .ok cs ∧ ∀ c, c ∈ cs ↔ ∃ r ∈ rs, toNative debug r = .ok c := by
  induction rs with
  | nil => exact ⟨[], rfl, by simp⟩
  | cons r rs ih =>
    rw [List.forall_mem_cons] at h
    obtain ⟨c, hc⟩ := h.1
    obtain ⟨cs, hcs, hmem⟩ := ih h.2
    refine ⟨c :: cs, ?_, fun c' => ?_⟩
    · rw [List.mapM_cons, hc, hcs]
      rfl
    · rw [List.mem_cons, hmem, List.exists_mem_cons_iff, hc, Except.ok.injEq, eq_comm]

theorem visit_of_children (h : StoredAs decode cas d dir) {cs : List NessieStore.Digest}
    (hcs : children debug dir = .ok cs) : visit debug decode cas d = .ok (dir, cs) := by
  obtain ⟨bytes, hget, hdecode⟩ := h
  have hread : cas.readBlobBytes d = .ok bytes := by rw [FiniteCas.readBlobBytes, hget]
  rw [visit, hread]
  simp only [bind, Except.bind, hdecode, hcs]
  rfl

/-- A stored directory with well-formed digests can be visited, and its children go on the queue. -/
theorem visit_storedAs (h : StoredAs decode cas d dir) (hwf : dir.WellFormed debug) :
    ∃ cs, visit debug decode cas d = .ok (dir, cs) ∧ ∀ c, c ∈ cs ↔ Child debug decode cas d c := by
  have hrs : ∀ r, r ∈ dir.directories.filterMap DirectoryNode.digest ↔
      ∃ node ∈ dir.directories, node.digest = some r := fun r => List.mem_filterMap
  obtain ⟨cs, hcs, hmem⟩ := mapM_toNative fun r hr => by
    obtain ⟨node, hnode, hr⟩ := (hrs r).mp hr
    exact hwf node hnode r hr
  refine ⟨cs, visit_of_children h hcs, fun c => (hmem c).trans ⟨?_, ?_⟩⟩
  · rintro ⟨r, hr, hc⟩
    obtain ⟨node, hnode, hr⟩ := (hrs r).mp hr
    exact ⟨dir, node, r, h, hnode, hr, hc⟩
  · rintro ⟨dir', node, r, h', hnode, hr, hc⟩
    rw [h.unique h'] at hnode
    exact ⟨r, (hrs r).mpr ⟨node, hnode, hr⟩, hc⟩

/-- What is visited is stored, and its digests are well formed. -/
theorem storedAs_of_visit {cs : List NessieStore.Digest}
    (h : visit debug decode cas d = .ok (dir, cs)) :
    StoredAs decode cas d dir ∧ dir.WellFormed debug := by
  obtain ⟨bytes, hbytes, h⟩ := ok_of_bind h
  unfold FiniteCas.readBlobBytes at hbytes
  split at hbytes
  · cases hbytes
  · cases hbytes
  next hget =>
  cases hbytes
  split at h
  · cases h
  next dir' hdecode =>
  obtain ⟨cs', hchildren, h⟩ := ok_of_bind h
  cases h
  refine ⟨⟨bytes, hget, hdecode⟩, fun node hnode r hr => ?_⟩
  have hall : ∀ {rs : List Digest} {cs : List NessieStore.Digest},
      rs.mapM (toNative debug) = .ok cs → ∀ r ∈ rs, ∃ c, toNative debug r = .ok c := by
    intro rs
    induction rs with
    | nil => simp
    | cons r rs ih =>
      intro cs hcs
      rw [List.mapM_cons] at hcs
      obtain ⟨c, hc, hcs⟩ := ok_of_bind hcs
      obtain ⟨cs', hcs', -⟩ := ok_of_bind hcs
      exact List.forall_mem_cons.mpr ⟨⟨c, hc⟩, ih hcs'⟩
  exact hall hchildren r (List.mem_filterMap.mpr ⟨node, hnode, hr⟩)

/-- The walk follows the child nodes of the stored directories. -/
theorem tree_follows : (tree debug decode cas).Follows (Child debug decode cas) := by
  intro d dir cs hlook
  obtain ⟨hstored, hwf⟩ := storedAs_of_visit hlook
  obtain ⟨cs', hvisit, hmem⟩ := visit_storedAs hstored hwf
  rw [show visit debug decode cas d = .ok (dir, cs) from hlook] at hvisit
  cases hvisit
  exact hmem

end Complete

/-- Where every directory that the root reaches over child nodes is held and decodes with well-formed
child digests, `collect_tree` returns them, one for each digest and the nearer ones first, and a
client that has resumed as often as it liked and has received the empty token has received exactly
this list. Until then every call is served, and one that is read at all brings it further. -/
theorem get_tree_complete {F : Type} (debug : Text → String)
    (decode : Bytes → Except String (Directory F)) (cas : FiniteCas) (root : Digest)
    (d : NessieStore.Digest) (hroot : toNative debug root = .ok d)
    (hheld : ∀ a, Reaches (Child debug decode cas) d a →
      ∃ dir, StoredAs decode cas a dir ∧ dir.WellFormed debug) :
    ∃ (order : List NessieStore.Digest) (all : List (Directory F)),
      collectTree debug decode cas d = .ok all ∧ List.Forall₂ (StoredAs decode cas) order all ∧
      order.Nodup ∧ (∀ a, a ∈ order ↔ Reaches (Child debug decode cas) d a) ∧
      (order.Pairwise fun a b => distance (Child debug decode cas) d a ≤
        distance (Child debug decode cas) d b) ∧
      ∀ (calls : List (Int32 × Nat)) (c : TreeClient F),
        Run (treeStep debug decode cas root) (fun _ _ => True) TreeClient.start calls c →
        (c.done = true → c.received = all) ∧
        (c.done = false → ∀ call, ∃ c', treeStep debug decode cas root c call = some c' ∧
          (0 < call.2 → c'.done = true ∨ c.received.length < c'.received.length)) := by
  have hlook : ∀ a, Reaches (Child debug decode cas) d a →
      ∃ r, (tree debug decode cas).look a = .ok r := by
    intro a ha
    obtain ⟨dir, hdir, hwf⟩ := hheld a ha
    obtain ⟨cs, hvisit, -⟩ := visit_storedAs hdir hwf
    exact ⟨_, hvisit⟩
  obtain ⟨order, all, hnodup, hmem, hascending, hstored, hall⟩ := Lookup.sweep_eq tree_follows hlook
  have hlength : all.length < 2 ^ 64 := by
    have hsub : order.toFinset ⊆ cas.held := by
      intro a ha
      obtain ⟨r, hr⟩ := hlook a ((hmem a).mp (List.mem_toFinset.mp ha))
      exact mem_held_of_visit debug decode hr
    have hcard := Finset.card_le_card hsub
    rw [List.toFinset_card_of_nodup hnodup, hstored.length_eq] at hcard
    exact lt_of_le_of_lt hcard cas.counted
  refine ⟨order, all, hall, hstored.imp fun _ _ h => (storedAs_of_visit h.choose_spec).1, hnodup,
    hmem, hascending, ?_⟩
  intro calls c hrun
  obtain ⟨k, hc⟩ := resumed_of_run hroot hall hlength hrun
  constructor
  · intro hdone
    rw [hc.received, hc.finished hdone, List.take_length]
  · intro hmore call
    obtain ⟨c', k', hstep, hc', hfurther⟩ := hc.step hroot hall hlength hmore call
    refine ⟨c', hstep, fun hr => (hfurther hr).imp id fun hlt => ?_⟩
    have hk' := hc'.bound
    rw [hc.received, hc'.received, List.length_take, List.length_take]
    omega

section Diamond

def sampleDigest (n : UInt8) : NessieStore.Digest :=
  ⟨.sha256, List.replicate 32 n, by rw [List.length_replicate]; rfl⟩

def sampleNode (n : UInt8) : DirectoryNode := ⟨[], some ⟨Hex.encode (List.replicate 32 n), 0⟩⟩

/-- A root with two children that share a child. -/
def diamondEdges (n : UInt8) : List UInt8 := if n = 0 then [1, 2] else if n = 3 then [] else [3]

def diamondDir (n : UInt8) : Directory Unit := ⟨(diamondEdges n).map sampleNode, ()⟩

def diamond : Bytes → Except String (Directory Unit)
  | [n] => .ok (diamondDir n)
  | _ => .error "no message"

def diamondCas : FiniteCas where
  get d :=
    if d ∈ [0, 1, 2, 3].map sampleDigest then .ok (.ok (d.bytes.take 1))
    else .error (.blobNotFound d)
  held := ([0, 1, 2, 3].map sampleDigest).toFinset
  mem_held {d reader} h := by
    split at h
    · next hd => exact List.mem_toFinset.mpr hd
    · cases h
  counted := Nat.lt_of_le_of_lt (List.toFinset_card_le _) (by decide)

theorem toNative_sample (n : UInt8) :
    toNative (fun _ => "") ⟨Hex.encode (List.replicate 32 n), 0⟩ = .ok (sampleDigest n) :=
  toNative_eq_ok_iff.mpr ⟨@isHash_encode (sampleDigest n) rfl, rfl, rfl⟩

theorem diamond_visit {n : UInt8} (hn : n ∈ [0, 1, 2, 3]) :
    visit (fun _ => "") diamond diamondCas (sampleDigest n) =
      .ok (diamondDir n, (diamondEdges n).map sampleDigest) := by
  refine visit_of_children ⟨[n], ?_, rfl⟩ ?_
  · show (if _ then _ else _) = _
    rw [if_pos (List.mem_map_of_mem hn)]
    rfl
  · unfold children diamondDir
    dsimp only
    induction diamondEdges n with
    | nil => rfl
    | cons m ms ih =>
      have hnode : (sampleNode m).digest = some ⟨Hex.encode (List.replicate 32 m), 0⟩ := rfl
      rw [List.map_cons, List.filterMap_cons_some hnode, List.mapM_cons, toNative_sample, ih]
      rfl

theorem diamond_held {a : NessieStore.Digest}
    (h : Reaches (Child (fun _ => "") diamond diamondCas) (sampleDigest 0) a) :
    ∃ n ∈ [0, 1, 2, 3], sampleDigest n = a := by
  refine List.mem_map.mp (h.mem (S := {a | a ∈ [0, 1, 2, 3].map sampleDigest}) (by simp) ?_)
  intro b hb c hc
  obtain ⟨n, hn, rfl⟩ := List.mem_map.mp hb
  obtain ⟨m, hm, rfl⟩ := List.mem_map.mp ((tree_follows _ _ _ (diamond_visit hn) c).mpr hc)
  have hedges : ∀ n ∈ ([0, 1, 2, 3] : List UInt8), ∀ m ∈ diamondEdges n, m ∈ [0, 1, 2, 3] := by
    decide +kernel
  exact List.mem_map_of_mem (hedges n hn m hm)

/-- The four directories of the diamond: the root first, the shared one once and last. -/
theorem get_tree_complete_diamond :
    collectTree (fun _ => "") diamond diamondCas (sampleDigest 0) =
        .ok [diamondDir 0, diamondDir 1, diamondDir 2, diamondDir 3] ∧
      ∀ calls c, Run (treeStep (fun _ => "") diamond diamondCas
          ⟨Hex.encode (List.replicate 32 0), 0⟩) (fun _ _ => True) TreeClient.start calls c →
        c.done = true → c.received = [diamondDir 0, diamondDir 1, diamondDir 2, diamondDir 3] := by
  obtain ⟨-, all, hall, -, -, -, -, hrun⟩ := get_tree_complete (fun _ => "") diamond diamondCas
    ⟨Hex.encode (List.replicate 32 0), 0⟩ (sampleDigest 0) (toNative_sample 0) fun a ha => by
      obtain ⟨n, hn, rfl⟩ := diamond_held ha
      exact ⟨_, storedAs_of_visit (diamond_visit hn)⟩
  have hlook : ∀ n ∈ ([0, 1, 2, 3] : List UInt8), (tree (fun _ => "") diamond diamondCas).look
      (sampleDigest n) = .ok (diamondDir n, (diamondEdges n).map sampleDigest) :=
    fun n => diamond_visit
  have hfour : collectTree (fun _ => "") diamond diamondCas (sampleDigest 0) =
      .ok [diamondDir 0, diamondDir 1, diamondDir 2, diamondDir 3] := by
    rw [collectTree, Lookup.sweep_new (by decide) (hlook 0 (by decide))]
    show Lookup.sweep _ _ [sampleDigest 1, sampleDigest 2] _ = _
    rw [Lookup.sweep_new (by decide) (hlook 1 (by decide))]
    show Lookup.sweep _ _ [sampleDigest 2, sampleDigest 3] _ = _
    rw [Lookup.sweep_new (by decide) (hlook 2 (by decide))]
    show Lookup.sweep _ _ [sampleDigest 3, sampleDigest 3] _ = _
    rw [Lookup.sweep_new (by decide) (hlook 3 (by decide))]
    show Lookup.sweep _ _ [sampleDigest 3] _ = _
    rw [Lookup.sweep_met (by decide), Lookup.sweep]
    rfl
  rw [hfour] at hall
  cases hall
  exact ⟨hfour, fun calls c h => (hrun calls c h).1⟩

end Diamond

end NessieStore.Reapi
