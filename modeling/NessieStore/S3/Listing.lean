import NessieStore.Lib.Paging
import NessieStore.Lib.SortBy
import NessieStore.S3.Key

/-!
# Listing objects

`ListObjectsV2` of the S3 face (`nessie-s3`, `service.rs`): the blobs of the store under their
canonical keys, in the order of the keys, a page at a time. A page is computed from scratch
(`listPage`), and the token that continues a listing is the last key of the page, which may be gone
when it is sent. A client that follows the tokens is a `Pager` over the inventories that have the
prefix (`listStep_pager`), so whatever happens to the store between the pages, nothing comes twice
and nothing that stays is skipped.

Keys are compared as Rust compares strings, by their bytes. An object's time of modification is always
the epoch and is left out, and so are the fields of the answer that repeat the request's.
-/

set_option autoImplicit false

namespace NessieStore.S3

open Lib

/-- A blob to list: its key, its size, and what goes with it. -/
abbrev Listed (T : Type) := Text × UInt64 × T

variable {T : Type}

/-- What listed blobs are sorted by. -/
def listKey (b : Listed T) : List Nat := nameKey b.1

/-- Whether a key may stand behind a token. -/
def isAfter (after : Option Text) (key : Text) : Bool :=
  after.all fun a => decide (nameKey a < nameKey key)

/-- One page: the keys with the prefix and behind `after`, at most `max`, and the token when more
remain. -/
def listPage (blobs : List (Listed T)) (pre : Text) (after : Option Text) (max : Nat) :
    List (Listed T) × Option Text :=
  let kept := blobs.filter fun b => pre.isPrefixOf b.1 && isAfter after b.1
  let sorted := kept.insertionSort (KeyLe listKey)
  let truncated := decide (max < sorted.length) && decide (0 < max)
  let page := sorted.take max
  (page, if truncated then page.getLast?.map Prod.fst else none)

/-! ## The request -/

/-- `ListObjectsV2Input`, the fields that are read. -/
structure ListRequest where
  pre : Option Text
  delimiter : Option Text
  startAfter : Option Text
  continuationToken : Option Text
  maxKeys : Option Int32

/-- An `Object` of the answer. -/
structure ListedObject where
  key : Text
  size : Int64
  eTag : Text

/-- `ListObjectsV2Output`. -/
structure ListAnswer where
  maxKeys : Int32
  keyCount : Nat
  isTruncated : Bool
  nextContinuationToken : Option Text
  contents : List ListedObject

/-- Why a listing fails. -/
inductive ListError
  | delimiter
  | notEnumerable
  | backend (e : BackendError)

/-- The object of a listed blob. -/
def listedObject (b : Listed Digest) : ListedObject := ⟨b.1, b.2.1.toInt64, etagOf b.2.2⟩

/-- `MAX_KEYS`. -/
def maxPage : Int32 := 1000

/-- `max_keys`, between zero and a page; a page when it is absent. -/
def pageLimit : Option Int32 → Int32
  | none => maxPage
  | some m => if m < 0 then 0 else if maxPage < m then maxPage else m

/-- The SHA-256 blobs under their canonical keys. -/
def inventory (held : List LocalBlob) : List (Listed Digest) :=
  (held.filter fun b => b.digest.algo = .sha256).map fun b =>
    (canonicalKey b.digest, UInt64.ofNat b.sizeBytes, b.digest)

/-- `list_objects_v2`; `iterLocal` is what a store that can enumerate its blobs answers. -/
def listObjectsV2 (iterLocal : Option (Except BackendError (List LocalBlob))) (req : ListRequest) :
    Except ListError ListAnswer :=
  if req.delimiter.any (· ≠ []) then .error .delimiter
  else
    match iterLocal with
    | none => .error .notEnumerable
    | some (.error e) => .error (.backend e)
    | some (.ok held) =>
      let max := pageLimit req.maxKeys
      let (page, next) := listPage (inventory held) (req.pre.getD [])
        (req.continuationToken.or req.startAfter) max.toInt.toNat
      let contents := page.map listedObject
      .ok ⟨max, contents.length, next.isSome, next, contents⟩

theorem canonicalKey_injective {d d' : Digest} (hd : d.algo = .sha256) (hd' : d'.algo = .sha256)
    (h : canonicalKey d = canonicalKey d') : d = d' := by
  have hparse := parse_canonicalKey hd
  rw [h, parse_canonicalKey hd'] at hparse
  cases hparse
  rfl

/-- What a listing sees has distinct keys. -/
theorem inventory_distinct {held : List LocalBlob} (h : (held.map LocalBlob.digest).Nodup) :
    ((inventory held).map Prod.fst).Nodup := by
  rw [inventory, List.map_map]
  refine List.Nodup.map_on ?_ (h.of_map.filter _)
  intro b hb b' hb' heq
  have hsame := canonicalKey_injective (of_decide_eq_true (List.mem_filter.mp hb).2)
    (of_decide_eq_true (List.mem_filter.mp hb').2) heq
  exact List.inj_on_of_nodup_map h (List.mem_filter.mp hb).1 (List.mem_filter.mp hb').1 hsame

/-! ## Following the tokens -/

/-- A client on its way through a listing: the token that it was given, and the pages. -/
structure Listing (T : Type) where
  token : Option Text
  pages : List (List (Listed T))
  done : Bool

def Listing.start : Listing T := ⟨none, [], false⟩

/-- The next page, of the blobs that the store has by then; a token wins over `start-after`. -/
def listStep (pre : Text) (startAfter : Option Text) (s : Listing T) (req : List (Listed T) × Nat) :
    Option (Listing T) :=
  if s.done then none
  else
    let (page, next) := listPage req.1 pre (s.token.or startAfter) req.2
    some ⟨next, s.pages ++ [page], next.isNone⟩

/-- A request with the token of a listing is its next step, over the blobs that are held by then. -/
theorem listObjectsV2_step {s : Listing Digest} (hmore : s.done = false) (held : List LocalBlob)
    {req : ListRequest} (hdelimiter : req.delimiter = none)
    (htoken : req.continuationToken = s.token) :
    ∃ s' page answer, listStep (req.pre.getD []) req.startAfter s
        (inventory held, (pageLimit req.maxKeys).toInt.toNat) = some s' ∧
      s'.pages = s.pages ++ [page] ∧ listObjectsV2 (some (.ok held)) req = .ok answer ∧
      answer.contents = page.map listedObject ∧ answer.nextContinuationToken = s'.token ∧
      answer.isTruncated = !s'.done := by
  rw [listStep, hmore, listObjectsV2, hdelimiter, htoken]
  refine ⟨_, _, _, rfl, rfl, rfl, rfl, rfl, ?_⟩
  exact (Option.not_isNone _).symm

/-- What a request sees: the blobs with the prefix, in the order of their keys. -/
def matching (pre : Text) (blobs : List (Listed T)) : List (Listed T) :=
  (blobs.filter fun b => pre.isPrefixOf b.1).insertionSort (KeyLe listKey)

section Matching

variable {pre : Text} {blobs : List (Listed T)} {after : Option Text}

theorem isAfter_iff {key : Text} :
    isAfter after key = true ↔ Beyond (after.map nameKey) (nameKey key) := by
  cases after <;> simp [isAfter, Beyond]

theorem beyond_map_iff {key : Text} :
    Beyond (after.map nameKey) (nameKey key) ↔ ∀ a ∈ after, nameKey a < nameKey key := by
  cases after <;> simp [Beyond]

theorem mem_matching {b : Listed T} : b ∈ matching pre blobs ↔ b ∈ blobs ∧ pre <+: b.1 := by
  rw [matching, List.mem_insertionSort, List.mem_filter, List.isPrefixOf_iff_prefix]

theorem listKey_nodup {l : List (Listed T)} (h : (l.map Prod.fst).Nodup) : (l.map listKey).Nodup := by
  have hmap := h.map nameKey_injective
  rwa [List.map_map] at hmap

theorem matching_ascending (h : (blobs.map Prod.fst).Nodup) :
    (matching pre blobs).Pairwise fun b b' => listKey b < listKey b' :=
  insertionSort_ascending ((listKey_nodup h).sublist (List.filter_sublist.map listKey))

/-- Filtering before sorting is filtering after it. -/
theorem sorted_eq_ahead (h : (blobs.map Prod.fst).Nodup) :
    (blobs.filter fun b => pre.isPrefixOf b.1 && isAfter after b.1).insertionSort (KeyLe listKey) =
      Pager.ahead listKey (after.map nameKey) (matching pre blobs) := by
  have hfilter : (blobs.filter fun b => pre.isPrefixOf b.1 && isAfter after b.1) =
      (blobs.filter fun b => pre.isPrefixOf b.1).filter
        fun b => Beyond (after.map nameKey) (listKey b) := by
    rw [List.filter_filter]
    refine List.filter_congr fun b _ => ?_
    have hafter : isAfter after b.1 = decide (Beyond (after.map nameKey) (listKey b)) := by
      rw [Bool.eq_iff_iff, isAfter_iff, decide_eq_true_iff]
      rfl
    rw [hafter, Bool.and_comm]
  refine eq_of_ascending ?_ (Pager.ahead_ascending _ (matching_ascending h)) ?_
  · exact insertionSort_ascending ((listKey_nodup h).sublist (List.filter_sublist.map listKey))
  · rw [hfilter]
    refine (List.perm_insertionSort _ _).trans ?_
    exact ((List.perm_insertionSort _ _).filter _).symm

end Matching

/-- A listing and the pager that it is. -/
structure Follows (startAfter : Option Text) (s : Listing T) (p : Pager (Listed T) (List Nat)) :
    Prop where
  pages : p.pages = s.pages
  done : p.done = s.done
  token : s.done = false → p.token = (s.token.or startAfter).map nameKey

/-- What a request of the listing is to the pager. -/
def Sees (pre : Text) (req req' : List (Listed T) × Nat) : Prop :=
  req' = (matching pre req.1, req.2) ∧ (req.1.map Prod.fst).Nodup ∧ 0 < req.2

theorem listPage_eq {pre : Text} {after : Option Text} {blobs : List (Listed T)} {max : Nat}
    (h : (blobs.map Prod.fst).Nodup) (hmax : 0 < max) :
    listPage blobs pre after max =
      let rest := Pager.ahead listKey (after.map nameKey) (matching pre blobs)
      (rest.take max, if max < rest.length then (rest.take max).getLast?.map Prod.fst else none) := by
  rw [listPage, sorted_eq_ahead h]
  simp only [hmax, decide_true, Bool.and_true, decide_eq_true_eq]

/-- Step by step, the two do the same. -/
theorem listStep_pager {pre : Text} {startAfter : Option Text} {s : Listing T}
    {p : Pager (Listed T) (List Nat)} {req req' : List (Listed T) × Nat} (hreq : Sees pre req req')
    (h : Follows startAfter s p) (hmore : s.done = false) :
    ∃ s' p', listStep pre startAfter s req = some s' ∧ p.step listKey req' = some p' ∧
      Follows startAfter s' p' := by
  obtain ⟨rfl, hnodup, hk⟩ := hreq
  have hlist : listPage req.1 pre (s.token.or startAfter) req.2 = _ := listPage_eq hnodup hk
  have hstep : p.step listKey (matching pre req.1, req.2) =
      let rest := Pager.ahead listKey ((s.token.or startAfter).map nameKey) (matching pre req.1)
      some ⟨Pager.nextToken listKey ((s.token.or startAfter).map nameKey) (rest.take req.2),
        s.pages ++ [rest.take req.2], decide (rest.length ≤ req.2)⟩ := by
    rw [Pager.step, h.done, hmore, h.token hmore, h.pages]
    rfl
  unfold listStep
  rw [hlist, hstep, hmore]
  generalize Pager.ahead listKey ((s.token.or startAfter).map nameKey) (matching pre req.1) = rest
  dsimp only
  by_cases hlt : req.2 < rest.length
  · obtain ⟨x, hx⟩ : ∃ x, (rest.take req.2).getLast? = some x := by
      have hne : rest.take req.2 ≠ [] := by
        rw [Ne, List.take_eq_nil_iff, ← List.length_eq_zero_iff]
        omega
      exact ⟨_, List.getLast?_eq_some_getLast hne⟩
    rw [if_pos hlt, hx, decide_eq_false (not_le.mpr hlt), Pager.nextToken, hx]
    exact ⟨_, _, rfl, rfl, rfl, rfl, fun _ => rfl⟩
  · rw [if_neg hlt, decide_eq_true (not_lt.mp hlt)]
    refine ⟨_, _, rfl, rfl, rfl, rfl, fun h => ?_⟩
    cases h

/-! ## Whole listings -/

section Whole

variable {pre : Text} {startAfter : Option Text}

theorem done_of_listStep {s s' : Listing T} {req : List (Listed T) × Nat}
    (h : listStep pre startAfter s req = some s') : s.done = false := by
  unfold listStep at h
  split at h
  · cases h
  · next hdone => exact Bool.eq_false_iff.mpr hdone

/-- A listing is a run of the pager that it is. -/
theorem Follows.run {s t : Listing T} {p : Pager (Listed T) (List Nat)}
    {reqs : List (List (Listed T) × Nat)}
    (hreqs : ∀ req ∈ reqs, (req.1.map Prod.fst).Nodup ∧ 0 < req.2) (h : Follows startAfter s p)
    (hrun : Run (listStep pre startAfter) (fun _ _ => True) s reqs t) :
    ∃ q, Run (Pager.step listKey) (fun _ req => Pager.Proper listKey req) p
      (reqs.map fun req => (matching pre req.1, req.2)) q ∧ Follows startAfter t q := by
  refine hrun.simulate (R := Follows startAfter) (L := Sees pre) ?_ ?_ h
  · intro s t p req req' _ hsees hfollows hstep
    obtain ⟨s', p', hs', hp', hfollows'⟩ := listStep_pager hsees hfollows (done_of_listStep hstep)
    rw [hstep] at hs'
    cases hs'
    obtain ⟨rfl, hnodup, hk⟩ := hsees
    exact ⟨p', ⟨matching_ascending hnodup, hk⟩, hp', hfollows'⟩
  · rw [List.forall₂_map_right_iff, List.forall₂_same]
    exact fun req hreq => ⟨rfl, hreqs req hreq⟩

/-- A run of the pager is a listing. -/
theorem Follows.run_of_pager {p q : Pager (Listed T) (List Nat)} {s : Listing T}
    {reqs : List (List (Listed T) × Nat)}
    (hreqs : ∀ req ∈ reqs, (req.1.map Prod.fst).Nodup ∧ 0 < req.2) (h : Follows startAfter s p)
    (hrun : Run (Pager.step listKey) (fun _ req => Pager.Proper listKey req) p
      (reqs.map fun req => (matching pre req.1, req.2)) q) :
    ∃ t, Run (listStep pre startAfter) (fun _ _ => True) s reqs t ∧ Follows startAfter t q := by
  refine hrun.simulate (R := fun p s => Follows startAfter s p) (L := fun req' req => Sees pre req req')
    ?_ ?_ h
  · intro p q s req' req _ hsees hfollows hstep
    have hmore : s.done = false := by
      rw [← hfollows.done]
      exact Pager.done_of_step hstep
    obtain ⟨s', q', hs', hq', hfollows'⟩ := listStep_pager hsees hfollows hmore
    rw [hstep] at hq'
    cases hq'
    exact ⟨s', trivial, hs', hfollows'⟩
  · rw [List.forall₂_map_left_iff, List.forall₂_same]
    exact fun req hreq => ⟨rfl, hreqs req hreq⟩

theorem Follows.start : Follows startAfter (Listing.start : Listing T)
    ⟨startAfter.map nameKey, [], false⟩ where
  pages := rfl
  done := rfl
  token _ := rfl

end Whole

/-- Following the tokens of a listing: the keys ascend, each is of the inventory of its page, has
the prefix and stands behind `start-after`, and once there is no token, each such key that was there
all the time has been listed once. While nothing changes there are at most as many pages as keys. -/
theorem listing_pages_exact (pre : Text) (startAfter : Option Text) :
    (∀ (reqs : List (List (Listed T) × Nat)) (s : Listing T),
      (∀ req ∈ reqs, (req.1.map Prod.fst).Nodup ∧ 1 ≤ req.2 ∧ req.2 ≤ 1000) →
      Run (listStep pre startAfter) (fun _ _ => True) Listing.start reqs s →
      (s.pages.flatten.Pairwise fun b b' => nameKey b.1 < nameKey b'.1) ∧
      List.Forall₂ (fun page req => ∀ b ∈ page, b ∈ req.1 ∧ pre <+: b.1 ∧
        ∀ a ∈ startAfter, nameKey a < nameKey b.1) s.pages reqs ∧
      (s.done = true → ∀ key : Text, pre <+: key → (∀ a ∈ startAfter, nameKey a < nameKey key) →
        (∀ req ∈ reqs, key ∈ req.1.map Prod.fst) → (s.pages.flatten.map Prod.fst).count key = 1)) ∧
    ∀ (blobs : List (Listed T)) (limits : Nat → Nat), (blobs.map Prod.fst).Nodup →
      (∀ i, 1 ≤ limits i ∧ limits i ≤ 1000) →
      ∃ m s, 1 ≤ m ∧
        m ≤ max 1 (blobs.filter fun b => pre.isPrefixOf b.1 && isAfter startAfter b.1).length ∧
        Run (listStep pre startAfter) (fun _ _ => True) Listing.start
          ((List.range m).map fun i => (blobs, limits i)) s ∧ s.done = true := by
  constructor
  · intro reqs s hreqs hrun
    obtain ⟨q, hq, hfollows⟩ :=
      Follows.start.run (fun req hreq => ⟨(hreqs req hreq).1, (hreqs req hreq).2.1⟩) hrun
    have hpaged := Pager.paged_of_run hq
    have hwithin := hpaged.within
    have hascending := hpaged.ascending
    have hnodup := hpaged.nodup
    rw [hfollows.pages] at hwithin hascending hnodup
    rw [List.forall₂_map_right_iff] at hwithin
    refine ⟨hascending, ?_, ?_⟩
    · refine hwithin.imp fun page req hpage b hb => ?_
      obtain ⟨hmem, hstart⟩ := hpage b hb
      obtain ⟨hmem, hpre⟩ := mem_matching.mp hmem
      exact ⟨hmem, hpre, beyond_map_iff.mp hstart⟩
    · intro hdone key hpre hafter hall
      have hthere : ∀ req ∈ reqs.map fun req => (matching pre req.1, req.2),
          ∃ b ∈ req.1, listKey b = nameKey key := by
        rw [List.forall_mem_map]
        intro req hreq
        obtain ⟨b, hb, rfl⟩ := List.mem_map.mp (hall req hreq)
        exact ⟨b, mem_matching.mpr ⟨hb, hpre⟩, rfl⟩
      obtain ⟨b, hb, hkey⟩ :=
        hpaged.listed (hfollows.done.trans hdone) (beyond_map_iff.mpr hafter) hthere
      rw [hfollows.pages] at hb
      have hdistinct : (s.pages.flatten.map Prod.fst).Nodup := by
        refine List.Nodup.of_map nameKey ?_
        rwa [List.map_map]
      exact List.count_eq_one_of_mem hdistinct
        (List.mem_map.mpr ⟨b, hb, nameKey_injective hkey⟩)
  · intro blobs limits hnodup hlimits
    have hsorted : (matching pre blobs).Pairwise fun b b' => listKey b < listKey b' :=
      matching_ascending hnodup
    obtain ⟨m, q, hm, hle, hdone, hrun⟩ := Pager.ends hsorted (fun i => (hlimits i).1)
      (p := ⟨startAfter.map nameKey, [], false⟩) rfl le_rfl
    rw [← sorted_eq_ahead hnodup, List.length_insertionSort] at hle
    have hmap : ((List.range m).map fun i => (matching pre blobs, limits i)) =
        ((List.range m).map fun i => (blobs, limits i)).map
          fun req => (matching pre req.1, req.2) := by
      rw [List.map_map]
      rfl
    rw [hmap] at hrun
    have hreqs : ∀ req ∈ (List.range m).map fun i => (blobs, limits i),
        (req.1.map Prod.fst).Nodup ∧ 0 < req.2 := by
      rw [List.forall_mem_map]
      exact fun i _ => ⟨hnodup, (hlimits i).1⟩
    obtain ⟨s, hs, hfollows⟩ := Follows.start.run_of_pager hreqs hrun
    exact ⟨m, s, hm, hle, hs, hfollows.done.symm.trans hdone⟩

end NessieStore.S3
