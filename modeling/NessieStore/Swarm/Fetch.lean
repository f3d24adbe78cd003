import NessieStore.Disk.Files

/-!
# Fetching through

`SwarmCas::get` (`nessie-cas-peer`, `swarm.rs`) over a `DiskCas`: a blob that is not there is looked
for at the peers, in their order. With `cache_fills` a peer's body goes through `put_keyed`, and
what was stored is read back; without, it is read into memory and verified there. Either way the
first body that its way of reading accepts is the answer (`fetch_spec`, `fetchUncached_eq`).

What a peer sends is the environment's: for each peer no response, or a body that may hold anything
and break off anywhere. A read that is interrupted is tried again by `read_to_end`, but not by the
loop of `put_keyed`, for which it is a failure like any other; without one the two ways agree
(`get_either_mode`). Calls of the file system go through, so `put_keyed` succeeds on bytes that
verify. The counter behind the temporary files is any supply of names; a file that an earlier
process left under such a name is overwritten, as in the source.
-/

set_option autoImplicit false

namespace NessieStore

open Lib

/-! ## Bodies -/

/-- An error of a read. -/
structure ReadError where
  interrupted : Bool
  text : String

/-- What the reader of a response answers, read for read. -/
abbrev Body := List (Except ReadError Bytes)

namespace Body

/-- The body as the loop of `put_keyed` sees it. -/
def reads (body : Body) : Reads := body.map (Except.mapError ReadError.text)

/-- `read_to_end`. -/
def readToEnd : Body → Except ReadError Bytes
  | [] => .ok []
  | .error e :: rest => if e.interrupted then readToEnd rest else .error e
  | .ok chunk :: rest => if chunk = [] then .ok [] else (readToEnd rest).map (chunk ++ ·)

/-- All bytes, where no read fails before the end. -/
def whole (body : Body) : Option Bytes :=
  if body.reads.all.2 = none then some body.reads.all.1 else none

theorem whole_cons_ok (chunk : Bytes) (rest : Body) :
    whole (.ok chunk :: rest) = if chunk = [] then some [] else rest.whole.map (chunk ++ ·) := by
  unfold whole
  have hcons : reads (.ok chunk :: rest) = .ok chunk :: rest.reads := rfl
  rw [hcons, Reads.all]
  by_cases hend : chunk = []
  · rw [if_pos hend, if_pos hend, if_pos rfl]
  · rw [if_neg hend, if_neg hend]
    cases rest.reads.all.2 <;> rfl

/-- A body that no read fails on is read by `read_to_end` as well. -/
theorem readToEnd_of_whole {body : Body} {bytes : Bytes} (h : body.whole = some bytes) :
    body.readToEnd = .ok bytes := by
  induction body generalizing bytes with
  | nil =>
    cases h
    rfl
  | cons answer rest ih =>
    cases answer with
    | error e => cases h
    | ok chunk =>
      rw [whole_cons_ok] at h
      rw [readToEnd]
      split at h
      · next hend =>
        cases h
        rw [if_pos hend]
      · next hend =>
        obtain ⟨tail, htail, rfl⟩ := Option.map_eq_some_iff.mp h
        rw [if_neg hend, ih htail]
        rfl

/-- Where no read is interrupted, `read_to_end` reads no other bodies. -/
theorem whole_eq_readToEnd {body : Body} (h : ∀ e, .error e ∈ body → e.interrupted = false) :
    body.whole = body.readToEnd.toOption := by
  induction body with
  | nil => rfl
  | cons answer rest ih =>
    have hrest := ih fun e he => h e (List.mem_cons_of_mem _ he)
    cases answer with
    | error e =>
      rw [readToEnd, h e List.mem_cons_self]
      rfl
    | ok chunk =>
      rw [whole_cons_ok, readToEnd, hrest]
      split
      · rfl
      · cases readToEnd rest <;> rfl

end Body

/-! ## The loops -/

section Loops

variable (H : HashFn) (tmpName : Nat → List Char) (d : Digest)

/-- `fetch`, with the number of the next temporary file; also how many peers it asked. -/
def fetch : Nat → List (Option Body) → DiskCas → Except BackendError Unit × DiskCas × Nat
  | _, [], c => (.error (.blobNotFound d), c, 0)
  | n, none :: peers, c =>
    let r := fetch n peers c
    (r.1, r.2.1, r.2.2 + 1)
  | n, some body :: peers, c =>
    match c.putKeyed H (tmpName n) d body.reads with
    | (.ok _, c) => (.ok (), c, 1)
    | (.error _, c) =>
      let r := fetch (n + 1) peers c
      (r.1, r.2.1, r.2.2 + 1)

def fetchUncached : List (Option Body) → Except BackendError Bytes × Nat
  | [] => (.error (.blobNotFound d), 0)
  | none :: peers =>
    let r := fetchUncached peers
    (r.1, r.2 + 1)
  | some body :: peers =>
    let next :=
      let r := fetchUncached peers
      (r.1, r.2 + 1)
    match body.readToEnd with
    | .ok bytes => if d.verify H bytes then (.ok bytes, 1) else next
    | .error _ => next

end Loops

/-- `SwarmCas`, over the files of a store. -/
structure SwarmCas where
  inner : DiskCas
  cacheFills : Bool

/-- How a `get` ended: the answer, the local store behind it, and how many peers it asked. -/
structure Fetched where
  answer : Except BackendError Bytes
  store : DiskCas
  asked : Nat

/-- `get`, where the peers answer with `peers`. -/
def SwarmCas.get (H : HashFn) (tmpName : Nat → List Char) (s : SwarmCas) (n : Nat)
    (peers : List (Option Body)) (d : Digest) : Fetched :=
  match s.inner.get H d with
  | .error (.blobNotFound _) =>
    if s.cacheFills then
      match fetch H tmpName d n peers s.inner with
      | (.ok _, c, asked) => ⟨c.get H d, c, asked⟩
      | (.error e, c, asked) => ⟨.error e, c, asked⟩
    else
      let r := fetchUncached H d peers
      ⟨r.1, s.inner, r.2⟩
  | other => ⟨other, s.inner, 0⟩

/-! ## What the loops find -/

/-- The first body that a way of reading accepts and that verifies. -/
def firstGood (H : HashFn) (take : Body → Option Bytes) (d : Digest) (peers : List (Option Body)) :
    Option Bytes :=
  peers.findSome? fun answer => (answer.bind take).filter (d.verify H)

section Found

variable {H : HashFn} {tmpName : Nat → List Char} {d : Digest}

theorem verify_of_firstGood {take : Body → Option Bytes} {peers : List (Option Body)} {bytes : Bytes}
    (h : firstGood H take d peers = some bytes) : d.verify H bytes = true := by
  obtain ⟨answer, -, hanswer⟩ := List.exists_of_findSome?_eq_some h
  exact (Option.filter_eq_some_iff.mp hanswer).2

theorem exists_firstGood {take : Body → Option Bytes} {peers : List (Option Body)} {body : Body}
    {bytes : Bytes} (hbody : some body ∈ peers) (htake : take body = some bytes)
    (hverify : d.verify H bytes = true) : ∃ bytes', firstGood H take d peers = some bytes' := by
  rw [← Option.isSome_iff_exists]
  unfold firstGood
  rw [List.findSome?_isSome_iff]
  refine ⟨some body, hbody, ?_⟩
  rw [Option.bind_some, htake, Option.filter_some, if_pos hverify]
  rfl

theorem firstGood_congr {take take' : Body → Option Bytes} {peers : List (Option Body)}
    (h : ∀ body, some body ∈ peers → take body = take' body) :
    firstGood H take d peers = firstGood H take' d peers := by
  unfold firstGood
  induction peers with
  | nil => rfl
  | cons answer peers ih =>
    have hrest := ih fun body hbody => h body (List.mem_cons_of_mem _ hbody)
    rw [List.findSome?_cons, List.findSome?_cons, hrest]
    cases answer with
    | none => rfl
    | some body => rw [Option.bind_some, Option.bind_some, h body List.mem_cons_self]

/-- What a `put_keyed` of a body does to the store. -/
theorem putKeyed_body (c : DiskCas) (name : List Char) (body : Body) :
    match body.whole.filter (d.verify H) with
    | some bytes => c.putKeyed H name d body.reads =
        (.ok (), ⟨c.tmp.erase name, c.blobs.insert d.path bytes⟩)
    | none => ∃ e, c.putKeyed H name d body.reads = (.error e, { c with tmp := c.tmp.erase name }) := by
  rw [DiskCas.putKeyed_over]
  unfold Body.whole
  cases body.reads.all.2 with
  | some e => exact ⟨_, rfl⟩
  | none =>
    rw [if_pos rfl, Option.filter_some]
    by_cases hverify : d.verify H body.reads.all.1 = true
    · simp only [hverify, if_true]
    · simp only [hverify, if_false, Bool.false_eq_true]
      exact ⟨_, rfl⟩

/-- How `fetch` ends, where `found` is the first good body: it is stored, nothing else is, and no
temporary file is left. -/
structure Ended (d : Digest) (c : DiskCas) (found : Option Bytes)
    (r : Except BackendError Unit × DiskCas × Nat) : Prop where
  answer : r.1 = if found.isSome then .ok () else .error (.blobNotFound d)
  blobs : r.2.1.blobs = found.elim c.blobs (c.blobs.insert d.path)
  tmp : ∀ name file, r.2.1.tmp.lookup name = some file → c.tmp.lookup name = some file

theorem lookup_of_erase {tmp : Map (List Char) Bytes} {name other : List Char} {file : Bytes}
    (h : (tmp.erase name).lookup other = some file) : tmp.lookup other = some file := by
  rw [Map.lookup_erase_eq] at h
  split at h
  · cases h
  · exact h

/-- By induction on the peers. -/
theorem fetch_spec (n : Nat) (peers : List (Option Body)) (c : DiskCas) :
    Ended d c (firstGood H Body.whole d peers) (fetch H tmpName d n peers c) := by
  induction peers generalizing n c with
  | nil => exact ⟨rfl, rfl, fun _ _ h => h⟩
  | cons answer peers ih =>
    cases answer with
    | none => exact ⟨(ih n c).answer, (ih n c).blobs, (ih n c).tmp⟩
    | some body =>
      have hput := putKeyed_body (H := H) (d := d) c (tmpName n) body
      unfold firstGood
      rw [List.findSome?_cons, Option.bind_some, fetch]
      cases hgood : body.whole.filter (d.verify H) with
      | some bytes =>
        rw [hgood] at hput
        rw [hput]
        exact ⟨rfl, rfl, fun _ _ h => lookup_of_erase h⟩
      | none =>
        rw [hgood] at hput
        obtain ⟨e, hput⟩ := hput
        rw [hput]
        have hrest := ih (n + 1) { c with tmp := c.tmp.erase (tmpName n) }
        exact ⟨hrest.answer, hrest.blobs, fun name file h => lookup_of_erase (hrest.tmp name file h)⟩

theorem fetchUncached_eq (peers : List (Option Body)) : (fetchUncached H d peers).1 =
    match firstGood H (fun body => body.readToEnd.toOption) d peers with
    | some bytes => .ok bytes
    | none => .error (.blobNotFound d) := by
  induction peers with
  | nil => rfl
  | cons answer peers ih =>
    cases answer with
    | none => exact ih
    | some body =>
      unfold firstGood at ih ⊢
      rw [List.findSome?_cons, Option.bind_some, fetchUncached]
      cases hread : body.readToEnd with
      | error e => exact ih
      | ok bytes =>
        dsimp only [Except.toOption]
        rw [Option.filter_some]
        by_cases hverify : d.verify H bytes = true
        · rw [if_pos hverify, if_pos hverify]
        · rw [if_neg hverify, if_neg hverify]
          exact ih

end Found

/-! ## Fetch-through -/

section Get

variable {H : HashFn} {tmpName : Nat → List Char} {s : SwarmCas} {n : Nat}
  {peers : List (Option Body)} {d : Digest}

/-- A copy that is there decides: it is served, or it is an error. No peer is asked. -/
theorem get_of_some {bytes : Bytes} (h : s.inner.blobs.lookup d.path = some bytes) :
    s.get H tmpName n peers d = ⟨s.inner.get H d, s.inner, 0⟩ := by
  unfold SwarmCas.get DiskCas.get
  rw [h]
  by_cases hverify : d.verify H bytes = true
  · simp only [hverify, if_true]
  · simp only [hverify, if_false, Bool.false_eq_true]

section Absent

variable (h : s.inner.blobs.lookup d.path = none)

include h

theorem get_cached (hfills : s.cacheFills = true) :
    ∃ found, firstGood H Body.whole d peers = found ∧
      (s.get H tmpName n peers d).answer = found.elim (.error (.blobNotFound d)) .ok ∧
      (s.get H tmpName n peers d).store.blobs =
        found.elim s.inner.blobs (s.inner.blobs.insert d.path) ∧
      ∀ name file, (s.get H tmpName n peers d).store.tmp.lookup name = some file →
        s.inner.tmp.lookup name = some file := by
  have hmiss : s.inner.get H d = .error (.blobNotFound d) := by rw [DiskCas.get, h]
  have hended : Ended d s.inner (firstGood H Body.whole d peers) (fetch H tmpName d n peers s.inner) :=
    fetch_spec n peers s.inner
  refine ⟨_, rfl, ?_⟩
  unfold SwarmCas.get
  rw [hmiss]
  simp only [hfills, if_true]
  generalize fetch H tmpName d n peers s.inner = r at hended ⊢
  obtain ⟨answer, store, asked⟩ := r
  cases hfound : firstGood H Body.whole d peers with
  | none =>
    rw [hfound] at hended
    obtain rfl : answer = .error (.blobNotFound d) := hended.answer
    exact ⟨rfl, hended.blobs, hended.tmp⟩
  | some bytes =>
    rw [hfound] at hended
    obtain rfl : answer = .ok () := hended.answer
    have hblobs : store.blobs = s.inner.blobs.insert d.path bytes := hended.blobs
    refine ⟨?_, hblobs, hended.tmp⟩
    show store.get H d = .ok bytes
    rw [DiskCas.get, hblobs, Finmap.lookup_insert]
    exact if_pos (verify_of_firstGood hfound)

theorem get_uncached (hfills : s.cacheFills = false) :
    ∃ found, firstGood H (fun body => body.readToEnd.toOption) d peers = found ∧
      (s.get H tmpName n peers d).answer = found.elim (.error (.blobNotFound d)) .ok ∧
      (s.get H tmpName n peers d).store = s.inner := by
  have hmiss : s.inner.get H d = .error (.blobNotFound d) := by rw [DiskCas.get, h]
  refine ⟨_, rfl, ?_⟩
  unfold SwarmCas.get
  rw [hmiss]
  simp only [hfills, if_false, Bool.false_eq_true, fetchUncached_eq, and_true]
  cases firstGood H (fun body => body.readToEnd.toOption) d peers <;> rfl

/-- Either way it is the first good body, if there is one. -/
theorem get_absent : ∃ found : Option Bytes, (∀ bytes, found = some bytes → d.verify H bytes = true) ∧
    ((∃ body bytes, some body ∈ peers ∧ body.whole = some bytes ∧ d.verify H bytes = true) →
      found.isSome = true) ∧
    (s.get H tmpName n peers d).answer = found.elim (.error (.blobNotFound d)) .ok ∧
    ((s.get H tmpName n peers d).store.blobs = s.inner.blobs ∨ s.cacheFills = true ∧
      ∃ bytes, d.verify H bytes = true ∧
        (s.get H tmpName n peers d).store.blobs = s.inner.blobs.insert d.path bytes) ∧
    ∀ name file, (s.get H tmpName n peers d).store.tmp.lookup name = some file →
      s.inner.tmp.lookup name = some file := by
  cases hfills : s.cacheFills with
  | true =>
    obtain ⟨found, hfound, hanswer, hblobs, htmp⟩ := @get_cached H tmpName s n peers d h hfills
    refine ⟨found, ?_, ?_, hanswer, ?_, htmp⟩
    · rintro bytes rfl
      exact verify_of_firstGood hfound
    · rintro ⟨body, bytes, hbody, hwhole, hverify⟩
      rw [← hfound, Option.isSome_iff_exists]
      exact exists_firstGood hbody hwhole hverify
    · cases found with
      | none => exact .inl hblobs
      | some bytes => exact .inr ⟨rfl, bytes, verify_of_firstGood hfound, hblobs⟩
  | false =>
    obtain ⟨found, hfound, hanswer, hstore⟩ := @get_uncached H tmpName s n peers d h hfills
    rw [hstore]
    refine ⟨found, ?_, ?_, hanswer, .inl rfl, fun _ _ hfile => hfile⟩
    · rintro bytes rfl
      exact verify_of_firstGood hfound
    · rintro ⟨body, bytes, hbody, hwhole, hverify⟩
      rw [← hfound, Option.isSome_iff_exists]
      refine exists_firstGood hbody ?_ hverify
      rw [Body.readToEnd_of_whole hwhole]
      rfl

end Absent

end Get

/-- With or without `cache_fills`, the answer is the same where no read is interrupted. -/
theorem get_either_mode (H : HashFn) (tmpName : Nat → List Char) (c : DiskCas) (n : Nat)
    {peers : List (Option Body)} (d : Digest)
    (hpeers : ∀ body, some body ∈ peers → ∀ e, .error e ∈ body → e.interrupted = false) :
    (SwarmCas.get H tmpName ⟨c, true⟩ n peers d).answer =
      (SwarmCas.get H tmpName ⟨c, false⟩ n peers d).answer := by
  cases hlocal : c.blobs.lookup d.path with
  | some bytes => rw [get_of_some hlocal, get_of_some hlocal]
  | none =>
    obtain ⟨found, hfound, hanswer, -⟩ := @get_cached H tmpName ⟨c, true⟩ n peers d hlocal rfl
    obtain ⟨found', hfound', hanswer', -⟩ := @get_uncached H tmpName ⟨c, false⟩ n peers d hlocal rfl
    rw [hanswer, hanswer', ← hfound, ← hfound', firstGood_congr fun body hbody =>
      Body.whole_eq_readToEnd (hpeers body hbody)]

/-- Both ways fetch the bytes from the second peer. -/
theorem get_either_mode_second :
    (SwarmCas.get .short (fun _ => []) ⟨⟨∅, ∅⟩, true⟩ 0
        [some [.error ⟨false, "reset"⟩], some [.ok [1], .ok [2]]] (.compute .short [1, 2])).answer =
      (SwarmCas.get .short (fun _ => []) ⟨⟨∅, ∅⟩, false⟩ 0
        [some [.error ⟨false, "reset"⟩], some [.ok [1], .ok [2]]] (.compute .short [1, 2])).answer :=
  get_either_mode .short (fun _ => []) ⟨∅, ∅⟩ 0 _ (by
    rintro body hbody e he
    simp only [List.mem_cons, Option.some.injEq, List.not_mem_nil, or_false] at hbody
    rcases hbody with rfl | rfl
    · simp only [List.mem_cons, List.not_mem_nil, or_false, Except.error.injEq] at he
      rw [he]
    · simp at he)

/-- `get` serves only bytes that verify: the local copy if it does; an error, before any peer is
asked, if it does not; and of a blob that is not there a peer's body, whenever one of them reads to
its end and verifies. The local store gains at most a copy that verifies, and only of a blob that
was not there and with `cache_fills`; no temporary file is left. -/
theorem fetch_through_exact (H : HashFn) (tmpName : Nat → List Char) (s : SwarmCas) (n : Nat)
    (peers : List (Option Body)) (d : Digest) :
    (∀ bytes, (s.get H tmpName n peers d).answer = .ok bytes → d.verify H bytes = true) ∧
    (∀ bytes, s.inner.blobs.lookup d.path = some bytes → d.verify H bytes = true →
      (s.get H tmpName n peers d).answer = .ok bytes) ∧
    (s.inner.blobs.lookup d.path = none →
      (∃ body bytes, some body ∈ peers ∧ body.whole = some bytes ∧ d.verify H bytes = true) →
      ∃ bytes, (s.get H tmpName n peers d).answer = .ok bytes) ∧
    (∀ bytes, s.inner.blobs.lookup d.path = some bytes → d.verify H bytes = false →
      (∃ e, (s.get H tmpName n peers d).answer = .error e) ∧ (s.get H tmpName n peers d).asked = 0) ∧
    ((s.get H tmpName n peers d).store.blobs = s.inner.blobs ∨
      s.cacheFills = true ∧ s.inner.blobs.lookup d.path = none ∧ ∃ bytes, d.verify H bytes = true ∧
        (s.get H tmpName n peers d).store.blobs = s.inner.blobs.insert d.path bytes) ∧
    ∀ name file, (s.get H tmpName n peers d).store.tmp.lookup name = some file →
      s.inner.tmp.lookup name = some file := by
  cases hlocal : s.inner.blobs.lookup d.path with
  | some bytes =>
    have hget : s.inner.get H d = if d.verify H bytes then .ok bytes
        else .error (.internal (String.ofList ("corrupt blob ".toList ++ d.toText))) := by
      rw [DiskCas.get, hlocal]
    rw [get_of_some hlocal, hget]
    refine ⟨?_, ?_, fun habsent => ?_, ?_, .inl rfl, fun _ _ hfile => hfile⟩
    · intro bytes' hanswer
      split at hanswer
      · next hverify =>
        cases hanswer
        exact hverify
      · cases hanswer
    · rintro _ ⟨⟩ hverify
      exact if_pos hverify
    · cases habsent
    · rintro _ ⟨⟩ hverify
      rw [hverify]
      exact ⟨⟨_, rfl⟩, rfl⟩
  | none =>
    obtain ⟨found, hgood, hserved, hanswer, hblobs, htmp⟩ := @get_absent H tmpName s n peers d hlocal
    refine ⟨?_, fun _ hcopy => ?_, ?_, fun _ hcopy => ?_, ?_, htmp⟩
    · intro bytes hok
      rw [hanswer] at hok
      cases found with
      | none => cases hok
      | some bytes' =>
        cases hok
        exact hgood bytes rfl
    · cases hcopy
    · intro _ hbody
      obtain ⟨bytes, rfl⟩ := Option.isSome_iff_exists.mp (hserved hbody)
      exact ⟨bytes, hanswer⟩
    · cases hcopy
    · rcases hblobs with hsame | ⟨hfills, hstored⟩
      · exact .inl hsame
      · exact .inr ⟨hfills, rfl, hstored⟩

end NessieStore
