import NessieStore.Lib.Drain
import NessieStore.Lib.Run
import NessieStore.Store.Evict

/-!
# An eviction pass on its own

`CasStore::evict_to_budget` when nothing else runs: the pass of `Store.Evict` from call to return, as
one function of the store and of what the environment answers. It also says which blobs it removed, in
order, which the source does not return and no caller sees.

The result is exact (`evict_to_budget_exact`): only candidates go, those with another holder before
sole copies; the pass stops as soon as the rest is within the budget; and the report counts what was
removed. `evictToBudget_run` is the connection to the steps: the pass of `Store.Evict`, driven to its
end with these answers, does this.

Sizes are natural numbers; the source adds them up in a `u64`.
-/

set_option autoImplicit false

namespace NessieStore

open Lib

/-- `PeerId`. -/
structure PeerId where
  name : List Char
deriving DecidableEq

/-- What an eviction pass is told: the roots, the inventory in the order of its listing, the time, and
the router's and the oracle's answers. -/
structure EvictAnswers where
  pinned : Finset Digest
  blobs : List LocalBlob
  now : Nat
  me : PeerId
  providers : Digest → Except BackendError (List PeerId)
  durablyHeld : Digest → Except BackendError Bool

/-- `has_other_holder`; an error counts as no holder. -/
def EvictAnswers.hasOtherHolder (a : EvictAnswers) (d : Digest) : Bool :=
  let others := match a.providers d with
    | .ok holders => (holders.filter (· ≠ a.me)).length
    | .error _ => 0
  1 ≤ others || match a.durablyHeld d with
    | .ok held => held
    | .error _ => false

/-- Somebody else has the blob: a provider that is not this node, or so the oracle says. -/
def EvictAnswers.OtherHolder (a : EvictAnswers) (d : Digest) : Prop :=
  (∃ holders, a.providers d = .ok holders ∧ ∃ p ∈ holders, p ≠ a.me) ∨ a.durablyHeld d = .ok true

theorem EvictAnswers.hasOtherHolder_iff {a : EvictAnswers} {d : Digest} :
    a.hasOtherHolder d = true ↔ a.OtherHolder d := by
  unfold hasOtherHolder OtherHolder
  rw [Bool.or_eq_true, decide_eq_true_eq]
  refine or_congr ?_ ?_
  · cases a.providers d with
    | ok holders => simp [Nat.one_le_iff_ne_zero]
    | error e => simp
  · cases a.durablyHeld d with
    | ok held => simp
    | error e => simp

instance (a : EvictAnswers) (d : Digest) : Decidable (a.OtherHolder d) :=
  decidable_of_iff _ a.hasOtherHolder_iff

/-- The blobs that may go. -/
def EvictAnswers.candidates (a : EvictAnswers) (s : CasStore) (grace : Nat) : List LocalBlob :=
  NessieStore.candidates s a.now grace a.pinned a.blobs

/-- A listed blob that is neither pinned nor in flight, and was not written within the grace. -/
structure EvictAnswers.Evictable (a : EvictAnswers) (s : CasStore) (grace : Nat) (b : LocalBlob) :
    Prop where
  listed : b ∈ a.blobs
  unpinned : b.digest ∉ a.pinned
  settled : b.digest ∉ s.state.inFlight
  aged : ∀ w, s.state.access.writtenAt.lookup b.digest = some w → grace = 0 ∨ w + grace ≤ a.now

theorem pastGrace_iff {s : CasStore} {now grace : Nat} {d : Digest} : pastGrace s now grace d = true ↔
    ∀ w, s.state.access.writtenAt.lookup d = some w → grace = 0 ∨ w + grace ≤ now := by
  unfold pastGrace
  cases s.state.access.writtenAt.lookup d with
  | none => simp
  | some w =>
    simp only [decide_eq_true_eq, Option.some.injEq, forall_eq']
    omega

theorem EvictAnswers.mem_candidates {a : EvictAnswers} {s : CasStore} {grace : Nat} {b : LocalBlob} :
    b ∈ a.candidates s grace ↔ a.Evictable s grace b := by
  simp only [candidates, NessieStore.candidates, List.mem_filter, decide_eq_true_eq, pastGrace_iff]
  constructor
  · rintro ⟨hlisted, hunpinned, hsettled, haged⟩
    exact ⟨hlisted, hunpinned, hsettled, haged⟩
  · intro h
    exact ⟨h.listed, h.unpinned, h.settled, h.aged⟩

/-- The candidates for which another holder is known. -/
def EvictAnswers.replicated (a : EvictAnswers) (s : CasStore) (grace : Nat) : List Digest :=
  ((a.candidates s grace).filter fun b => a.hasOtherHolder b.digest).map LocalBlob.digest

/-- What a pass leaves: the store, the bytes in use, the report, and what it removed. -/
structure Evicted where
  store : CasStore
  used : Nat
  report : EvictReport
  removed : List LocalBlob

/-- The last assignment of the pass. -/
def Evicted.close (budget : Nat) (r : Evicted) : Evicted :=
  { r with report := { r.report with stillOverBudget := budget < r.used } }

namespace CasStore

/-- Reclaim a blob and forget it. -/
def evictBlob (s : CasStore) (d : Digest) : CasStore :=
  ({ s with inner := (s.inner.reclaim d).2 } : CasStore).forget d

/-- The two loops over the victims, which share their totals. -/
def evictFrom (budget : Nat) : List (LocalBlob × Bool) → Evicted → Evicted
  | [], r => r
  | (victim, sole) :: queue, r =>
    if r.used ≤ budget then r
    else if r.store.inner.has victim.digest then
      evictFrom budget queue
        { store := r.store.evictBlob victim.digest
          used := r.used - victim.sizeBytes
          report := { r.report with
            evicted := r.report.evicted + 1
            evictedSole := r.report.evictedSole + (if sole then 1 else 0)
            bytesEvicted := r.report.bytesEvicted + victim.sizeBytes }
          removed := r.removed ++ [victim] }
    else evictFrom budget queue r

/-- The pass of a store that is over its budget. -/
def evictOver (s : CasStore) (budget grace : Nat) (a : EvictAnswers) : Evicted :=
  (evictFrom budget (victims s (a.replicated s grace) (a.candidates s grace))
    ⟨s, (a.blobs.map LocalBlob.sizeBytes).sum, { scanned := (a.candidates s grace).length }, []⟩).close
    budget

/-- `evict_to_budget`. -/
def evictToBudget (s : CasStore) (a : EvictAnswers) : Except BackendError Evicted :=
  match s.mode with
  | .writeOnly _ => .error (.featureNotSupported "cache-eviction")
  | .lru budget grace =>
    let used := (a.blobs.map LocalBlob.sizeBytes).sum
    if used ≤ budget then .ok ⟨s, used, {}, []⟩ else .ok (s.evictOver budget grace a)

end CasStore

/-! ## The victims -/

section Victims

variable {s : CasStore} {replicated : List Digest} {blobs : List LocalBlob}

/-- The candidates, coldest first. -/
def coldestFirst (s : CasStore) (blobs : List LocalBlob) : List LocalBlob :=
  blobs.insertionSort fun a b => s.state.access.tick a.digest ≤ s.state.access.tick b.digest

theorem victims_eq : victims s replicated blobs =
    ((coldestFirst s blobs).filter fun b => b.digest ∈ replicated).map (·, false) ++
      ((coldestFirst s blobs).filter fun b => ¬ b.digest ∈ replicated).map (·, true) := by
  simp only [victims, List.partition_eq_filter_filter, coldestFirst, decide_not]
  rfl

variable (s replicated blobs) in
theorem victims_perm : ((victims s replicated blobs).map Prod.fst).Perm blobs := by
  rw [victims_eq]
  simp only [List.map_append, List.map_map, Function.comp_def, List.map_id', decide_not]
  exact (List.filter_append_perm _ _).trans (List.perm_insertionSort _ blobs)

/-- A victim is marked as a sole copy when no other holder is known. -/
theorem sole_iff_of_mem_victims {v : LocalBlob × Bool} (h : v ∈ victims s replicated blobs) :
    v.2 = true ↔ v.1.digest ∉ replicated := by
  rw [victims_eq, List.mem_append, List.mem_map, List.mem_map] at h
  rcases h with ⟨b, hb, rfl⟩ | ⟨b, hb, rfl⟩
  · have hmem := of_decide_eq_true (List.mem_filter.mp hb).2
    simp [hmem]
  · have hnot := of_decide_eq_true (List.mem_filter.mp hb).2
    simp [hnot]

variable (s replicated blobs) in
/-- Sole copies come last. -/
theorem victims_sole_last :
    (victims s replicated blobs).Pairwise fun u v => u.2 = true → v.2 = true := by
  rw [victims_eq, List.pairwise_append]
  refine ⟨?_, ?_, ?_⟩
  · exact List.pairwise_map.mpr (List.pairwise_of_forall fun _ _ h => h)
  · exact List.pairwise_map.mpr (List.pairwise_of_forall fun _ _ h => h)
  · intro u hu v _ hsole
    obtain ⟨b, -, rfl⟩ := List.mem_map.mp hu
    cases hsole

end Victims

/-! ## The loop -/

namespace CasStore

/-- Evict blobs one after the other. -/
def evictBlobs (s : CasStore) (ds : List Digest) : CasStore := ds.foldl evictBlob s

theorem lookup_evictBlobs (s : CasStore) (ds : List Digest) (d : Digest) :
    (s.evictBlobs ds).inner.blobs.lookup d = if d ∈ ds then none else s.inner.blobs.lookup d := by
  induction ds generalizing s with
  | nil => simp [evictBlobs]
  | cons d₀ ds ih =>
    have hrest := ih (s.evictBlob d₀)
    rw [evictBlobs, List.foldl_cons, ← evictBlobs, hrest]
    have hone : (s.evictBlob d₀).inner.blobs.lookup d =
        if d = d₀ then none else s.inner.blobs.lookup d := Map.lookup_erase_eq _ _ _
    rw [hone]
    by_cases hd : d = d₀
    · simp [hd]
    · simp [hd]

/-- The bytes that go are those of the blobs that go. -/
theorem liveBytes_evictBlobs {s : CasStore} {blobs : List LocalBlob}
    (hnodup : (blobs.map LocalBlob.digest).Nodup)
    (hheld : ∀ b ∈ blobs, s.inner.size b.digest = some b.sizeBytes) :
    (s.evictBlobs (blobs.map LocalBlob.digest)).inner.liveBytes +
      (blobs.map LocalBlob.sizeBytes).sum = s.inner.liveBytes := by
  induction blobs generalizing s with
  | nil => rfl
  | cons b blobs ih =>
    rw [List.map_cons, List.nodup_cons] at hnodup
    obtain ⟨bytes, hbytes, hlen⟩ := Option.map_eq_some_iff.mp (hheld b List.mem_cons_self)
    have hone : (s.evictBlob b.digest).inner.liveBytes + b.sizeBytes = s.inner.liveBytes := by
      rw [← hlen]
      exact Map.total_erase hbytes
    have hrest := ih (s := s.evictBlob b.digest) hnodup.2 (by
      intro c hc
      have hne : c.digest ≠ b.digest := fun h => hnodup.1 (h ▸ List.mem_map_of_mem hc)
      have hkept : (s.evictBlob b.digest).inner.blobs.lookup c.digest =
          s.inner.blobs.lookup c.digest := Finmap.lookup_erase_ne hne
      rw [LocalCas.size, hkept]
      exact hheld c (List.mem_cons_of_mem b hc))
    have hfold : s.evictBlobs ((b :: blobs).map LocalBlob.digest) =
        (s.evictBlob b.digest).evictBlobs (blobs.map LocalBlob.digest) := rfl
    rw [hfold, List.map_cons, List.sum_cons]
    omega

/-- What the loop does to the totals, once it is known what it takes. -/
def tally (r : Evicted) (taken : List (LocalBlob × Bool)) : Evicted where
  store := r.store.evictBlobs (taken.map fun v => v.1.digest)
  used := r.used - (taken.map fun v => v.1.sizeBytes).sum
  report := { r.report with
    evicted := r.report.evicted + taken.length
    evictedSole := r.report.evictedSole + taken.countP (·.2)
    bytesEvicted := r.report.bytesEvicted + (taken.map fun v => v.1.sizeBytes).sum }
  removed := r.removed ++ taken.map Prod.fst

/-- The loop takes from the queue until the rest is within the budget. -/
theorem evictFrom_eq {budget : Nat} {queue : List (LocalBlob × Bool)} {r : Evicted}
    (hnodup : (queue.map fun v => v.1.digest).Nodup)
    (hheld : ∀ v ∈ queue, r.store.inner.has v.1.digest = true) :
    evictFrom budget queue r = tally r (drain (fun v => v.1.sizeBytes) budget r.used queue) := by
  induction queue generalizing r with
  | nil => simp [evictFrom, drain, tally, evictBlobs]
  | cons v queue ih =>
    obtain ⟨victim, sole⟩ := v
    rw [evictFrom, drain]
    by_cases hle : r.used ≤ budget
    · rw [if_pos hle, if_pos hle]
      simp [tally, evictBlobs]
    · rw [if_neg hle, if_neg hle, if_pos (hheld (victim, sole) List.mem_cons_self)]
      rw [List.map_cons, List.nodup_cons] at hnodup
      rw [ih hnodup.2]
      · simp only [tally, evictBlobs, List.map_cons, List.foldl_cons, List.sum_cons, List.length_cons,
          List.countP_cons, List.append_assoc, List.singleton_append, Nat.sub_sub]
        congr 2
        · omega
        · omega
        · omega
      · intro u hu
        have hne : u.1.digest ≠ victim.digest := fun h =>
          hnodup.1 (List.mem_map.mpr ⟨u, hu, h⟩)
        have hhas := hheld u (List.mem_cons_of_mem _ hu)
        show ((r.store.inner.reclaim victim.digest).2.has u.1.digest) = true
        rw [LocalCas.has_reclaim, hhas, decide_eq_true hne]
        rfl

end CasStore

/-- The sizes of a listing add up to the bytes on disk. -/
theorem LocalCas.IterLocal.sum_sizeBytes {c : LocalCas} {l : List LocalBlob} (h : c.IterLocal l) :
    (l.map LocalBlob.sizeBytes).sum = c.liveBytes := by
  have hnodup : ((l.map fun b => (b.digest, b.sizeBytes)).map Prod.fst).Nodup := by
    simpa [Function.comp_def] using h.1
  have hsum := Map.total_insertAll id hnodup (m := ∅) fun d _ => Finmap.lookup_empty d
  have hbytes : Map.total id (Map.insertAll ∅ (l.map fun b => (b.digest, b.sizeBytes))) =
      c.liveBytes := by
    refine Map.total_congr fun d => ?_
    have hsize : (CasStore.new c (.writeOnly 0) 0 l []).state.accounted.lookup d = c.size d :=
      CasStore.new_accounted h d
    simp only [CasStore.new] at hsize
    rw [hsize]
    simp [LocalCas.size]
  rw [← hbytes, hsum]
  simp [Function.comp_def]

/-! ## Exactness -/

/-- What a pass is to do: only candidates go, as few as will do, sole copies last, and the report says
so. -/
structure ExactPass (s : CasStore) (budget grace : Nat) (a : EvictAnswers) (r : Evicted) : Prop where
  /-- What is missing afterwards is what was removed. -/
  gone : ∀ d, r.store.inner.blobs.lookup d =
    if d ∈ r.removed.map LocalBlob.digest then none else s.inner.blobs.lookup d
  distinct : (r.removed.map LocalBlob.digest).Nodup
  held : ∀ b ∈ r.removed, s.inner.size b.digest = some b.sizeBytes
  spared : ∀ b ∈ r.removed, a.Evictable s grace b
  /-- Before every removal the store was over its budget. -/
  needed : ∀ before b after, r.removed = before ++ b :: after →
    budget < s.inner.liveBytes - (before.map LocalBlob.sizeBytes).sum
  /-- With the last removed blob put back it would be. -/
  tight : ∀ before b, r.removed = before ++ [b] → budget < r.store.inner.liveBytes + b.sizeBytes
  stillOver : r.report.stillOverBudget = true ↔ budget < r.store.inner.liveBytes
  exhausted : r.report.stillOverBudget = true → ∀ b, a.Evictable s grace b → b ∈ r.removed
  soleLast : ∀ before b after, r.removed = before ++ b :: after → ¬ a.OtherHolder b.digest →
    ∀ c, a.Evictable s grace c → a.OtherHolder c.digest → c ∈ before
  evicted : r.report.evicted = r.removed.length
  evictedSole : r.report.evictedSole = r.removed.countP fun b => ¬ a.OtherHolder b.digest
  bytesEvicted : r.report.bytesEvicted = (r.removed.map LocalBlob.sizeBytes).sum

section Exact

variable {s : CasStore} {budget grace : Nat} {a : EvictAnswers}

/-- What a pass over budget takes. -/
def EvictAnswers.taken (a : EvictAnswers) (s : CasStore) (budget grace : Nat) :
    List (LocalBlob × Bool) :=
  drain (fun v => v.1.sizeBytes) budget (a.blobs.map LocalBlob.sizeBytes).sum
    (victims s (a.replicated s grace) (a.candidates s grace))

theorem mem_replicated {b : LocalBlob}
    (hb : b ∈ a.candidates s grace) :
    b.digest ∈ a.replicated s grace ↔ a.OtherHolder b.digest := by
  unfold EvictAnswers.replicated
  rw [List.mem_map, ← EvictAnswers.hasOtherHolder_iff]
  constructor
  · rintro ⟨c, hc, heq⟩
    rw [← heq]
    exact (List.mem_filter.mp hc).2
  · exact fun h => ⟨b, List.mem_filter.mpr ⟨hb, h⟩, rfl⟩

variable (grace) in
/-- The victims of a pass have distinct digests and are all held. -/
theorem victims_of_pass (hl : s.inner.IterLocal a.blobs) :
    ((victims s (a.replicated s grace) (a.candidates s grace)).map fun v => v.1.digest).Nodup ∧
      ∀ v ∈ victims s (a.replicated s grace) (a.candidates s grace), v.1 ∈ a.candidates s grace ∧
        s.inner.size v.1.digest = some v.1.sizeBytes := by
  constructor
  · have hperm := (victims_perm s (a.replicated s grace) (a.candidates s grace)).map
      LocalBlob.digest
    rw [List.map_map] at hperm
    refine hperm.nodup_iff.mpr ?_
    exact hl.1.sublist ((List.filter_sublist).map _)
  · intro v hv
    have hmem := mem_victims hv
    exact ⟨hmem, hl.2.1 v.1 (List.mem_of_mem_filter hmem)⟩

/-- A pass over budget is the tally of what it takes. -/
theorem evictOver_eq (hl : s.inner.IterLocal a.blobs) : s.evictOver budget grace a =
    (CasStore.tally ⟨s, s.inner.liveBytes, { scanned := (a.candidates s grace).length }, []⟩
      (a.taken s budget grace)).close budget := by
  obtain ⟨hnodup, hvictims⟩ := victims_of_pass grace hl
  have hheld : ∀ v ∈ victims s (a.replicated s grace) (a.candidates s grace),
      s.inner.has v.1.digest = true := by
    intro v hv
    rw [LocalCas.has, (hvictims v hv).2]
    rfl
  unfold CasStore.evictOver
  rw [CasStore.evictFrom_eq hnodup hheld]
  unfold EvictAnswers.taken
  rw [hl.sum_sizeBytes]

/-- What is removed, at a place in the queue, is a victim at that place. -/
theorem taken_split {before after : List LocalBlob} {b : LocalBlob}
    (h : (a.taken s budget grace).map Prod.fst = before ++ b :: after) :
    ∃ before' sole after', a.taken s budget grace = before' ++ (b, sole) :: after' ∧
      before'.map Prod.fst = before := by
  obtain ⟨before', rest, htaken, hbefore, hrest⟩ := List.map_eq_append_iff.mp h
  obtain ⟨⟨c, sole⟩, after', rfl, rfl, -⟩ := List.map_eq_cons_iff.mp hrest
  exact ⟨before', sole, after', htaken, hbefore⟩

variable (s budget grace a) in
theorem taken_isPrefix :
    a.taken s budget grace <+: victims s (a.replicated s grace) (a.candidates s grace) :=
  drain_prefix _ _

/-- A blob that is taken is a candidate, with its size on disk. -/
theorem mem_taken (hl : s.inner.IterLocal a.blobs) {b : LocalBlob}
    (hb : b ∈ (a.taken s budget grace).map Prod.fst) :
    b ∈ a.candidates s grace ∧ s.inner.size b.digest = some b.sizeBytes := by
  obtain ⟨v, hv, rfl⟩ := List.mem_map.mp hb
  exact (victims_of_pass grace hl).2 v ((taken_isPrefix s budget grace a).subset hv)

variable (budget grace) in
theorem nodup_taken (hl : s.inner.IterLocal a.blobs) :
    (((a.taken s budget grace).map Prod.fst).map LocalBlob.digest).Nodup := by
  rw [List.map_map]
  exact (victims_of_pass grace hl).1.sublist ((taken_isPrefix s budget grace a).sublist.map _)

theorem over_of_taken (hl : s.inner.IterLocal a.blobs) {before after : List LocalBlob}
    {b : LocalBlob} (h : (a.taken s budget grace).map Prod.fst = before ++ b :: after) :
    budget < s.inner.liveBytes - (before.map LocalBlob.sizeBytes).sum := by
  obtain ⟨before', sole, after', htaken, rfl⟩ := taken_split h
  have hover := drain_over htaken
  rw [hl.sum_sizeBytes] at hover
  rw [List.map_map]
  exact hover

/-- A victim is marked as a sole copy when the answers name no other holder. -/
theorem sole_iff {v : LocalBlob × Bool}
    (hv : v ∈ victims s (a.replicated s grace) (a.candidates s grace)) :
    v.2 = true ↔ ¬ a.OtherHolder v.1.digest := by
  rw [sole_iff_of_mem_victims hv, mem_replicated (mem_victims hv)]

/-- Behind a sole copy there are only sole copies. -/
theorem mem_before_sole {before after : List (LocalBlob × Bool)} {b : LocalBlob × Bool}
    {c : LocalBlob} (h : victims s (a.replicated s grace) (a.candidates s grace) = before ++ b :: after)
    (hb : ¬ a.OtherHolder b.1.digest) (hc : c ∈ a.candidates s grace)
    (hother : a.OtherHolder c.digest) : c ∈ before.map Prod.fst := by
  obtain ⟨v, hv, rfl⟩ := List.mem_map.mp ((victims_perm s _ _).mem_iff.mpr hc)
  have hheld : ¬ v.2 = true := fun hsole => (sole_iff hv).mp hsole hother
  have hsole : b.2 = true := (sole_iff (h ▸ List.mem_append_right _ List.mem_cons_self)).mpr hb
  have hlast := victims_sole_last s (a.replicated s grace) (a.candidates s grace)
  rw [h] at hlast hv
  rcases List.mem_append.mp hv with hbefore | hbehind
  · exact List.mem_map_of_mem hbefore
  · rcases List.mem_cons.mp hbehind with rfl | hbehind
    · exact absurd hsole hheld
    · have hpair := (List.pairwise_append.mp hlast).2.1
      exact absurd ((List.pairwise_cons.mp hpair).1 v hbehind hsole) hheld

theorem exactPass_of_over (hl : s.inner.IterLocal a.blobs) :
    ExactPass s budget grace a (s.evictOver budget grace a) := by
  have hlive := CasStore.liveBytes_evictBlobs (nodup_taken budget grace hl)
    fun b hb => (mem_taken hl hb).2
  have hsum : ((a.taken s budget grace).map fun v => v.1.sizeBytes).sum =
      (((a.taken s budget grace).map Prod.fst).map LocalBlob.sizeBytes).sum := by
    rw [List.map_map]
    rfl
  have hdigests : ((a.taken s budget grace).map fun v => v.1.digest) =
      ((a.taken s budget grace).map Prod.fst).map LocalBlob.digest := by
    rw [List.map_map]
    rfl
  rw [evictOver_eq hl]
  simp only [CasStore.tally, Evicted.close, List.nil_append, Nat.zero_add, hsum, hdigests]
  refine
    { gone := CasStore.lookup_evictBlobs s _
      distinct := nodup_taken budget grace hl
      held := fun b hb => (mem_taken hl hb).2
      spared := fun b hb => EvictAnswers.mem_candidates.mp (mem_taken hl hb).1
      needed := fun before b after h => over_of_taken hl h
      tight := ?_
      stillOver := ?_
      exhausted := ?_
      soleLast := ?_
      evicted := (List.length_map _).symm
      evictedSole := ?_
      bytesEvicted := rfl }
  · intro before b h
    dsimp only at h ⊢
    have hover := over_of_taken hl h
    have hsplit : (((a.taken s budget grace).map Prod.fst).map LocalBlob.sizeBytes).sum =
        (before.map LocalBlob.sizeBytes).sum + b.sizeBytes := by
      rw [h]
      simp
    omega
  · simp only [decide_eq_true_eq]
    omega
  · intro hover b hb
    simp only [decide_eq_true_eq] at hover
    have hall : a.taken s budget grace = victims s (a.replicated s grace) (a.candidates s grace) := by
      have htotal : budget < (a.blobs.map LocalBlob.sizeBytes).sum -
          ((a.taken s budget grace).map fun v => v.1.sizeBytes).sum := by
        rw [hl.sum_sizeBytes, hsum]
        exact hover
      exact drain_all htotal
    rw [hall]
    exact (victims_perm s _ _).mem_iff.mpr (EvictAnswers.mem_candidates.mpr hb)
  · intro before b after h hsole c hc hother
    obtain ⟨before', sole, after', htaken, rfl⟩ := taken_split h
    obtain ⟨rest, hrest⟩ := taken_isPrefix s budget grace a
    rw [htaken, List.append_assoc, List.cons_append] at hrest
    exact mem_before_sole hrest.symm hsole (EvictAnswers.mem_candidates.mpr hc) hother
  · rw [List.countP_map]
    refine List.countP_congr fun v hv => ?_
    rw [sole_iff ((taken_isPrefix s budget grace a).subset hv)]
    simp

end Exact

/-- A store within its budget loses nothing. -/
theorem exactPass_of_within {s : CasStore} {budget grace : Nat} {a : EvictAnswers} {used : Nat}
    (hle : s.inner.liveBytes ≤ budget) : ExactPass s budget grace a ⟨s, used, {}, []⟩ where
  gone d := by simp
  distinct := List.nodup_nil
  held := by simp
  spared := by simp
  needed before b after h := by simp at h
  tight before b h := by simp at h
  stillOver := by simpa using hle
  exhausted h := by cases h
  soleLast before b after h := by simp at h
  evicted := rfl
  evictedSole := rfl
  bytesEvicted := rfl

/-- `evict_to_budget` on its own is exact. -/
theorem evict_to_budget_exact {s : CasStore} {budget grace : Nat} (hm : s.mode = .lru budget grace)
    (a : EvictAnswers) (hl : s.inner.IterLocal a.blobs) :
    ∃ r, s.evictToBudget a = .ok r ∧ ExactPass s budget grace a r := by
  unfold CasStore.evictToBudget
  rw [hm]
  dsimp only
  by_cases hle : (a.blobs.map LocalBlob.sizeBytes).sum ≤ budget
  · rw [if_pos hle]
    rw [hl.sum_sizeBytes] at hle
    exact ⟨_, rfl, exactPass_of_within hle⟩
  · rw [if_neg hle]
    exact ⟨_, rfl, exactPass_of_over hl⟩

/-- Four blobs, opened at time 0 with a grace of 60: the first is a root, the second was written again
at 95, the third has been read since. -/
def fourBlobs : CasStore :=
  let blobs : List Bytes := [[1], [2, 2], [3, 3, 3], [4, 4, 4, 4]]
  let s : CasStore := .new ⟨.disk, .insertAll ∅ (blobs.map fun b => (.compute .short b, b)), ∅, false⟩
    (.lru 6 60) 0 (blobs.map fun b => ⟨.compute .short b, b.length⟩) []
  { s with state := { s.state with
    access := (s.state.access.recordWrite (.compute .short [2, 2]) 95).touch
      (.compute .short [3, 3, 3]) } }

/-- At time 100 a peer holds the third, and the oracle answers nothing. -/
def mixedAnswers : EvictAnswers where
  pinned := {.compute .short [1]}
  blobs := [[1], [2, 2], [3, 3, 3], [4, 4, 4, 4]].map fun b => ⟨.compute .short b, b.length⟩
  now := 100
  me := ⟨"a".toList⟩
  providers d := .ok (if d = .compute .short [3, 3, 3] then [⟨"a".toList⟩, ⟨"b".toList⟩] else
    [⟨"a".toList⟩])
  durablyHeld _ := .error (.internal "unreachable")

/-- The third goes before the fourth, which is colder but a sole copy; the root and the recent write
stay. -/
theorem evict_to_budget_exact_mixed :
    ∃ r, fourBlobs.evictToBudget mixedAnswers = .ok r ∧
      r.removed = [⟨.compute .short [3, 3, 3], 3⟩, ⟨.compute .short [4, 4, 4, 4], 4⟩] ∧
      r.report = ⟨2, 2, 1, 7, false⟩ ∧ ExactPass fourBlobs 6 60 mixedAnswers r := by
  obtain ⟨r, hr, hexact⟩ := evict_to_budget_exact (rfl : fourBlobs.mode = .lru 6 60) mixedAnswers
    (by decide +kernel)
  have hremoved : (fourBlobs.evictToBudget mixedAnswers).toOption.map
      (fun r => (r.removed, r.report)) = some ([⟨.compute .short [3, 3, 3], 3⟩,
        ⟨.compute .short [4, 4, 4, 4], 4⟩], ⟨2, 2, 1, 7, false⟩) := by decide +kernel
  rw [hr] at hremoved
  obtain ⟨htaken, hreport⟩ := Prod.mk.inj (Option.some.inj hremoved)
  exact ⟨r, hr, htaken, hreport, hexact⟩

/-! ## The pass, step by step -/

/-- The steps of a pass, with nothing running beside it. -/
abbrev PassRun : CasStore × Evictor → List EvictEvent → CasStore × Evictor → Prop :=
  Run (fun x ev => Evictor.step x.1 x.2 ev) fun _ _ => True

theorem evictFrom_run {budget grace : Nat} (queue : List (LocalBlob × Bool)) (r : Evicted)
    (hm : r.store.mode = .lru budget grace) :
    ∃ evs, PassRun (r.store, .draining queue r.used r.report) evs
      ((CasStore.evictFrom budget queue r).store,
        .done (.ok ((CasStore.evictFrom budget queue r).close budget).report)) := by
  induction queue generalizing r with
  | nil =>
    refine ⟨[.reclaim], .cons trivial ?_ (.nil _)⟩
    simp only [Evictor.step, hm]
    rfl
  | cons v queue ih =>
    obtain ⟨victim, sole⟩ := v
    rw [CasStore.evictFrom]
    by_cases hle : r.used ≤ budget
    · refine ⟨[.reclaim], .cons trivial ?_ (.nil _)⟩
      simp only [Evictor.step, hm, if_pos hle, Evicted.close, decide_eq_false (Nat.not_lt.mpr hle)]
    · rw [if_neg hle]
      by_cases hhas : r.store.inner.has victim.digest = true
      · rw [if_pos hhas]
        obtain ⟨evs, hrest⟩ := ih
          { store := r.store.evictBlob victim.digest
            used := r.used - victim.sizeBytes
            report := { r.report with
              evicted := r.report.evicted + 1
              evictedSole := r.report.evictedSole + (if sole then 1 else 0)
              bytesEvicted := r.report.bytesEvicted + victim.sizeBytes }
            removed := r.removed ++ [victim] } hm
        have hreclaim : Evictor.step r.store (.draining ((victim, sole) :: queue) r.used r.report)
            .reclaim = some ({ r.store with inner := (r.store.inner.reclaim victim.digest).2 },
              .reclaimed victim sole queue r.used r.report) := by
          simp only [Evictor.step, hm, if_neg hle, if_pos hhas]
        exact ⟨.reclaim :: .forget :: evs, .cons trivial hreclaim (.cons trivial rfl hrest)⟩
      · rw [if_neg hhas]
        obtain ⟨evs, hrest⟩ := ih r hm
        refine ⟨.reclaim :: evs, .cons trivial ?_ hrest⟩
        simp only [Evictor.step, hm, if_neg hle, if_neg hhas]

/-- The pass of `Store.Evict`, given these answers and nothing else, comes to this result. -/
theorem evictToBudget_run {s : CasStore} {budget grace : Nat} (hm : s.mode = .lru budget grace)
    {a : EvictAnswers} (hl : s.inner.IterLocal a.blobs) {r : Evicted}
    (hr : s.evictToBudget a = .ok r) :
    ∃ evs, PassRun (s, .start) evs (r.store, .done (.ok r.report)) := by
  have hroots : Evictor.step s .start (.roots a.pinned) = some (s, .rooted a.pinned) := by
    simp only [Evictor.step, hm]
  unfold CasStore.evictToBudget at hr
  rw [hm] at hr
  dsimp only at hr
  by_cases hle : (a.blobs.map LocalBlob.sizeBytes).sum ≤ budget
  · rw [if_pos hle] at hr
    cases hr
    refine ⟨[.roots a.pinned, .list a.blobs], .cons trivial hroots (.cons trivial ?_ (.nil _))⟩
    simp only [Evictor.step, hm, if_pos hl, if_pos hle]
  · rw [if_neg hle] at hr
    cases hr
    have hlist : Evictor.step s (.rooted a.pinned) (.list a.blobs) =
        some (s, .listed a.pinned a.blobs) := by
      simp only [Evictor.step, hm, if_pos hl, if_neg hle]
    have hsnapshot : Evictor.step s (.listed a.pinned a.blobs) (.snapshot a.now) =
        some (s, .chosen (a.candidates s grace) (a.blobs.map LocalBlob.sizeBytes).sum) := by
      simp only [Evictor.step, hm]
      rfl
    obtain ⟨evs, hrest⟩ := evictFrom_run (victims s (a.replicated s grace) (a.candidates s grace))
      ⟨s, (a.blobs.map LocalBlob.sizeBytes).sum, { scanned := (a.candidates s grace).length }, []⟩ hm
    refine ⟨.roots a.pinned :: .list a.blobs :: .snapshot a.now ::
      .order (a.replicated s grace) :: evs, ?_⟩
    exact .cons trivial hroots (.cons trivial hlist (.cons trivial hsnapshot
      (.cons trivial rfl hrest)))

/-- One blob in a store that is to hold nothing, and nobody else who has it. -/
def fullStore : CasStore :=
  .new ⟨.disk, .insert (.compute .short [1]) [1] ∅, ∅, false⟩ (.lru 0 0) 0 [⟨.compute .short [1], 1⟩] []

def soleCopy : EvictAnswers :=
  ⟨∅, [⟨.compute .short [1], 1⟩], 1, ⟨[]⟩, fun _ => .ok [], fun _ => .ok false⟩

theorem evictToBudget_run_sole :
    ∃ evs r, fullStore.evictToBudget soleCopy = .ok r ∧ r.report.evicted = 1 ∧
      PassRun (fullStore, .start) evs (r.store, .done (.ok r.report)) := by
  have hreport : (fullStore.evictToBudget soleCopy).toOption.map (fun r => r.report.evicted) =
      some 1 := by decide +kernel
  cases hr : fullStore.evictToBudget soleCopy with
  | error e =>
    rw [hr] at hreport
    cases hreport
  | ok r =>
    rw [hr] at hreport
    obtain ⟨evs, hrun⟩ := evictToBudget_run rfl (by decide +kernel) hr
    exact ⟨evs, r, rfl, Option.some.inj hreport, hrun⟩

end NessieStore
