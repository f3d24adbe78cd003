import NessieStore.Store.EvictAlone
import NessieStore.Store.Failed

/-!
# Eviction and recency

An `lru` store (`nessie-cas-store`) is meant to evict what has not been used for longest. Here its
calls run one after the other, from opening over any inventory, and the digests they used (a `put`, a
`put_keyed` or a `get` that returned `Ok`) are remembered beside the store, the latest first.

Every held blob's tick is the number of uses before its last one (`Tracks`), and a blob without a tick
counts as tick 0, which is also the tick of the first use of all. So the order is right except in one
case: the sort is stable, and the blob of the first use goes before blobs never used that come after
it in the listing (`eviction_against_recency`). A pass that does not list such a pair in that order
follows recency (`eviction_follows_recency`).

The passes are those of `Store.Evict` run alone, with every failure they know.
-/

set_option autoImplicit false

namespace NessieStore

open Lib

/-! ## The calls -/

/-- A call on a store, with what its environment does meanwhile. -/
inductive LruCall
  | put (evs : List WriteEvent)
  | putKeyed (d : Digest) (evs : List WriteEvent)
  | get (d : Digest)
  | committed (d : Digest)
  | evictToBudget (evs : List EvictEvent)

namespace CasStore

variable (H : HashFn)

/-- A write alone: the store when it has returned, and the digest when it returned `Ok`. -/
def writeAlone (s : CasStore) (p : Putter) (evs : List WriteEvent) :
    Option (CasStore × Option Digest) :=
  match run (fun x ev => Putter.step H x.1 x.2 ev) (fun _ _ => True) (s, p) evs with
  | some (t, p) => if p.outcome.isSome then some (t, p.acknowledged) else none
  | none => none

/-- An eviction pass alone. -/
def passAlone (s : CasStore) (evs : List EvictEvent) : Option CasStore :=
  match run (fun x ev => Evictor.step x.1 x.2 ev) (fun _ _ => True) (s, .start) evs with
  | some (t, .done _) => some t
  | _ => none

/-- The store after a call, and the digest the call used. -/
def serve (s : CasStore) : LruCall → Option (CasStore × Option Digest)
  | .put evs => s.writeAlone H (.spooling []) evs
  | .putKeyed d evs => s.writeAlone H (.keyed ⟨d, .stream, .entered⟩) evs
  | .get d =>
    match s.inner.get H d with
    | .ok _ => some ({ s with state := { s.state with access := s.state.access.touch d } }, some d)
    | .error _ => some (s, none)
  | .committed d => some (s.releaseGuard d, none)
  | .evictToBudget evs => (s.passAlone evs).map (·, none)

/-- A call on a store with its past uses. -/
def serveUses (x : CasStore × List Digest) (call : LruCall) : Option (CasStore × List Digest) :=
  (x.1.serve H call).map fun r => (r.1, r.2.toList ++ x.2)

end CasStore

/-- The number of uses before the last use of `d`. -/
def lastUse : List Digest → Digest → Option Nat
  | [], _ => none
  | u :: uses, d => if u = d then some uses.length else lastUse uses d

theorem lastUse_lt_length {uses : List Digest} {d : Digest} {i : Nat}
    (h : lastUse uses d = some i) : i < uses.length := by
  induction uses with
  | nil => cases h
  | cons u uses ih =>
    rw [lastUse] at h
    rw [List.length_cons]
    split at h
    · cases h
      exact Nat.lt_succ_self _
    · exact Nat.lt_succ_of_lt (ih h)

/-- What was not used since the last use of `d` has an earlier last use, or none. -/
theorem lastUse_lt_of_not_since {uses : List Digest} {d e : Digest} (hd : d ∈ uses)
    (he : e ∉ uses.takeWhile (· ≠ d)) (hne : e ≠ d) :
    ∃ i, lastUse uses d = some i ∧ ∀ j, lastUse uses e = some j → j < i := by
  induction uses with
  | nil => cases hd
  | cons u uses ih =>
    by_cases hu : u = d
    · refine ⟨uses.length, if_pos hu, ?_⟩
      intro j hj
      rw [lastUse, if_neg (fun h => hne (h.symm.trans hu))] at hj
      exact lastUse_lt_length hj
    · rw [List.takeWhile_cons_of_pos (by simpa using hu), List.mem_cons, not_or] at he
      obtain ⟨i, hi, hlt⟩ := ih ((List.mem_cons.mp hd).resolve_left (Ne.symm hu)) he.2
      refine ⟨i, by rw [lastUse, if_neg hu, hi], ?_⟩
      intro j hj
      rw [lastUse, if_neg (Ne.symm he.1)] at hj
      exact hlt j hj

/-! ## Ticks and uses -/

/-- The store's recency against the uses so far. -/
structure Tracks (s : CasStore) (uses : List Digest) : Prop where
  lru : ∃ budget grace, s.mode = .lru budget grace
  tick : s.state.access.nextTick = uses.length
  held : ∀ d, s.inner.has d = true → s.state.access.lastTouch.lookup d = lastUse uses d

/-- A use of `d`: it is touched, and no other blob appears. -/
theorem Tracks.use {s t : CasStore} {uses : List Digest} (h : Tracks s uses) {d : Digest}
    (hmode : t.mode = s.mode) (htick : t.state.access.nextTick = s.state.access.nextTick + 1)
    (htouch : t.state.access.lastTouch =
      s.state.access.lastTouch.insert d s.state.access.nextTick)
    (hhas : ∀ e, e ≠ d → t.inner.has e = true → s.inner.has e = true) : Tracks t (d :: uses) where
  lru := by
    rw [hmode]
    exact h.lru
  tick := by rw [htick, h.tick, List.length_cons]
  held e he := by
    rw [htouch, Map.lookup_insert_eq, lastUse]
    by_cases hed : e = d
    · rw [if_pos hed, if_pos hed.symm, h.tick]
    · rw [if_neg hed, if_neg (Ne.symm hed)]
      exact h.held e (hhas e hed he)

/-! ### Writes -/

/-- Where a write alone stands in an `lru` store, against the store it started from. -/
def Caching (s : CasStore) : CasStore × Putter → Prop
  | (t, .keyed w) => match w.phase with
    | .entered | .ungated false _ _ | .ungatedDone false (.error _) | .returned (.error _) => t = s
    | .ungatedDone false (.ok _) | .stored => ∃ body, t = s.land w.expected body
    | .guarded | .returned (.ok _) =>
      ∃ body now, t = (s.land w.expected body).afterWrite w.expected now
    | _ => False
  | (t, _) => t = s

theorem Caching.step {H : HashFn} {s : CasStore} {budget grace : Nat}
    (hm : s.mode = .lru budget grace) {x y : CasStore × Putter} {ev : WriteEvent}
    (h : Caching s x) (hstep : Putter.step H x.1 x.2 ev = some y) : Caching s y := by
  obtain ⟨t, p⟩ := x
  obtain ⟨t', p'⟩ := y
  rcases Putter.step_cases hstep with ⟨w, w', hp, hp', hmove⟩ | ⟨hs, got, hp, hspool⟩
  · cases hp
    cases hp'
    dsimp only at hmove
    cases hmove with
    | direct => exact h
    | fast hw =>
      cases h
      rw [hm] at hw
      cases hw
    | gate hw =>
      cases h
      rw [hm] at hw
      cases hw
    | @read _ _ _ reg _ _ _ => cases reg <;> exact h
    | @failUngated _ _ reg _ _ _ => cases reg <;> exact h
    | @landUngated _ _ reg _ _ _ =>
      cases reg with
      | false =>
        cases h
        exact ⟨_, rfl⟩
      | true => exact h.elim
    | @rejectUngated _ _ reg _ _ => cases reg <;> exact h
    | @doneOk _ _ reg =>
      cases reg with
      | false => exact h
      | true => exact h.elim
    | @doneError _ _ reg _ =>
      cases reg with
      | false => exact h
      | true => exact h.elim
    | afterWrite =>
      obtain ⟨body, rfl⟩ := h
      exact ⟨body, _, rfl⟩
    | ret => exact h
    | _ => exact h.elim
  · cases hp
    have ht : t = s := h
    rcases hspool with ⟨got', rfl⟩ | ⟨e, rfl⟩ | ⟨cap, hw, rfl⟩ | ⟨b, g, hw, rfl⟩
    · exact hs.trans ht
    · exact hs.trans ht
    · exact hs.trans ht
    · exact hs.trans ht

/-- A write alone leaves the store as it was, or lands a body and makes its digest the latest. -/
theorem write_cases {H : HashFn} {s t : CasStore} {budget grace : Nat}
    (hm : s.mode = .lru budget grace) {p : Putter} (hstart : Caching s (s, p))
    {evs : List WriteEvent} {used : Option Digest} (h : s.writeAlone H p evs = some (t, used)) :
    t = s ∧ used = none ∨
      ∃ d body now, t = (s.land d body).afterWrite d now ∧ used = some d := by
  unfold CasStore.writeAlone at h
  split at h
  · next t' p' hrun =>
    split at h
    · next hout =>
      cases h
      have hend := (run_sound hrun).keeps (I := Caching s) (fun _ hc hs => hc.step hm hs) hstart
      cases p' with
      | spooling got => cases hout
      | failed e => exact .inl ⟨hend, rfl⟩
      | keyed w =>
        obtain ⟨d, source, ph⟩ := w
        cases ph with
        | returned out =>
          cases out with
          | error e => exact .inl ⟨hend, rfl⟩
          | ok u =>
            obtain ⟨body, now, ht⟩ := hend
            exact .inr ⟨d, body, now, ht, rfl⟩
        | _ => cases hout
    · cases h
  · cases h

/-! ### Passes -/

/-- The store `t` is `s` without the blobs `gone`. -/
structure Behind (s t : CasStore) (gone : List Digest) : Prop where
  mode : t.mode = s.mode
  has : ∀ d, t.inner.has d = (s.inner.has d && decide (d ∉ gone))
  tick : t.state.access.nextTick = s.state.access.nextTick
  touch : ∀ d, d ∉ gone → t.state.access.lastTouch.lookup d = s.state.access.lastTouch.lookup d

namespace Behind

theorem nil (s : CasStore) : Behind s s [] := ⟨rfl, by simp, rfl, fun _ _ => rfl⟩

variable {s t : CasStore} {gone : List Digest} {d : Digest}

theorem reclaim (h : Behind s t gone) :
    Behind s { t with inner := (t.inner.reclaim d).2 } (gone ++ [d]) where
  mode := h.mode
  has e := by
    rw [LocalCas.has_reclaim, h.has]
    by_cases he : e = d <;> simp [he]
  tick := h.tick
  touch e he := h.touch e fun hmem => he (List.mem_append_left _ hmem)

theorem forget (h : Behind s t gone) (hd : d ∈ gone) : Behind s (t.forget d) gone where
  mode := h.mode
  has := h.has
  tick := h.tick
  touch e he := by
    have hne : e ≠ d := fun heq => he (heq ▸ hd)
    rw [← h.touch e he]
    exact Finmap.lookup_erase_ne hne

/-- A blob that is not there may as well be counted among those that went. -/
theorem skip (h : Behind s t gone) (hd : t.inner.has d = false) : Behind s t (gone ++ [d]) where
  mode := h.mode
  has e := by
    rw [h.has] at hd ⊢
    by_cases he : e = d
    · rw [he, hd]
      simp
    · simp [he]
  tick := h.tick
  touch e he := h.touch e fun hmem => he (List.mem_append_left _ hmem)

/-- A pass uses nothing, and forgets only what it removes. -/
theorem tracks (h : Behind s t gone) {uses : List Digest} (hs : Tracks s uses) :
    Tracks t uses where
  lru := by
    rw [h.mode]
    exact hs.lru
  tick := h.tick.trans hs.tick
  held e he := by
    rw [h.has, Bool.and_eq_true] at he
    rw [h.touch e (of_decide_eq_true he.2)]
    exact hs.held e he.1

end Behind

/-- A pass has removed a beginning of its queue and no more. -/
def Draining (s : CasStore) (queue : List (LocalBlob × Bool)) : CasStore × Evictor → Prop
  | (t, .draining rest _ _) => ∃ gone, gone ++ rest = queue ∧
    Behind s t (gone.map fun v => v.1.digest)
  | (t, .reclaimed v sole rest _ _) => ∃ gone, gone ++ (v, sole) :: rest = queue ∧
    Behind s t (gone.map (fun v => v.1.digest) ++ [v.digest])
  | (t, .done _) => ∃ gone, gone <+: queue ∧ Behind s t (gone.map fun v => v.1.digest)
  | _ => False

theorem Draining.step {s : CasStore} {queue : List (LocalBlob × Bool)} {x y : CasStore × Evictor}
    {ev : EvictEvent} (h : Draining s queue x) (hstep : Evictor.step x.1 x.2 ev = some y) :
    Draining s queue y := by
  obtain ⟨t, e⟩ := x
  obtain ⟨t', e'⟩ := y
  have hmove := Evictor.moves_of_step hstep
  dsimp only at hmove
  cases hmove with
  | begin => exact h.elim
  | list => exact h.elim
  | snapshot => exact h.elim
  | order => exact h.elim
  | @skip v sole rest used report hnot =>
    obtain ⟨gone, hq, hb⟩ := h
    refine ⟨gone ++ [(v, sole)], by rw [List.append_assoc]; exact hq, ?_⟩
    rw [List.map_append]
    exact hb.skip hnot
  | reclaim hm hover hheld =>
    obtain ⟨gone, hq, hb⟩ := h
    exact ⟨gone, hq, hb.reclaim⟩
  | @forget v sole rest used used' report report' =>
    obtain ⟨gone, hq, hb⟩ := h
    refine ⟨gone ++ [(v, sole)], by rw [List.append_assoc]; exact hq, ?_⟩
    rw [List.map_append]
    exact hb.forget (List.mem_append_right _ (List.mem_singleton.mpr rfl))
  | finish =>
    cases e with
    | draining rest used report =>
      obtain ⟨gone, hq, hb⟩ := h
      exact ⟨gone, ⟨rest, hq⟩, hb⟩
    | reclaimed v sole rest used report => cases ev <;> simp [Evictor.step] at hstep
    | done out => exact h
    | _ => exact h.elim

/-- A pass has not begun to remove, or is removing. -/
def Passing (s : CasStore) : CasStore × Evictor → Prop
  | (t, .start) | (t, .rooted _) | (t, .listed ..) | (t, .chosen ..) => t = s
  | x => ∃ queue, Draining s queue x

theorem Passing.step {s : CasStore} {x y : CasStore × Evictor} {ev : EvictEvent}
    (h : Passing s x) (hstep : Evictor.step x.1 x.2 ev = some y) : Passing s y := by
  obtain ⟨t, e⟩ := x
  obtain ⟨t', e'⟩ := y
  -- the removing phases are those of `Draining.step`; before them the store is `s`
  have hkeep : (∃ queue, Draining s queue (t, e)) → ∃ queue, Draining s queue (t', e') :=
    fun ⟨queue, hd⟩ => ⟨queue, hd.step hstep⟩
  have hmove := Evictor.moves_of_step hstep
  dsimp only at hmove
  cases hmove with
  | begin => exact h
  | list => exact h
  | snapshot => exact h
  | @order blobs used replicated =>
    cases h
    exact ⟨victims s replicated blobs, [], rfl, .nil s⟩
  | skip => exact hkeep h
  | reclaim => exact hkeep h
  | forget => exact hkeep h
  | @finish _ _ out =>
    have hended : t = s → ∃ queue, Draining s queue (t, .done out) := by
      rintro rfl
      exact ⟨[], [], List.prefix_rfl, .nil t⟩
    cases e with
    | start => exact hended h
    | rooted => exact hended h
    | listed => exact hended h
    | chosen => exact hended h
    | draining => exact hkeep h
    | reclaimed => exact hkeep h
    | done => exact hkeep h

theorem pass_tracks {s t : CasStore} {evs : List EvictEvent} (h : s.passAlone evs = some t)
    {uses : List Digest} (hs : Tracks s uses) : Tracks t uses := by
  unfold CasStore.passAlone at h
  split at h
  · next t' out hrun =>
    cases h
    obtain ⟨queue, gone, -, hb⟩ :=
      (run_sound hrun).keeps (I := Passing s) (fun _ hp hst => hp.step hst) rfl
    exact hb.tracks hs
  · cases h

/-! ### Runs -/

theorem Tracks.step {H : HashFn} {x y : CasStore × List Digest} {call : LruCall}
    (h : Tracks x.1 x.2) (hstep : CasStore.serveUses H x call = some y) : Tracks y.1 y.2 := by
  obtain ⟨s, uses⟩ := x
  obtain ⟨⟨t, used⟩, hserve, rfl⟩ := Option.map_eq_some_iff.mp hstep
  obtain ⟨budget, grace, hm⟩ := h.lru
  have hwrite : ∀ p evs, Caching s (s, p) → s.writeAlone H p evs = some (t, used) →
      Tracks t (used.toList ++ uses) := by
    intro p evs hstart hw
    rcases write_cases hm hstart hw with ⟨rfl, rfl⟩ | ⟨d, body, now, rfl, rfl⟩
    · exact h
    · refine h.use rfl rfl rfl ?_
      intro e he hhas
      have hland : ((s.inner.land d body).has e) = true := hhas
      rw [LocalCas.has_land] at hland
      simpa [he] using hland
  cases call with
  | put evs => exact hwrite (.spooling []) evs rfl hserve
  | putKeyed d evs => exact hwrite (.keyed ⟨d, .stream, .entered⟩) evs rfl hserve
  | get d =>
    dsimp only [CasStore.serve] at hserve
    split at hserve
    · cases hserve
      exact h.use rfl rfl rfl fun e _ he => he
    · cases hserve
      exact h
  | committed d =>
    cases hserve
    exact ⟨h.lru, h.tick, h.held⟩
  | evictToBudget evs =>
    obtain ⟨t', hpass, heq⟩ := Option.map_eq_some_iff.mp hserve
    cases heq
    exact pass_tracks hpass h

theorem tracks_new (inner : LocalCas) (budget grace now : Nat) (blobs : List LocalBlob)
    (quarantine : List QuarantinedBlob) :
    Tracks (.new inner (.lru budget grace) now blobs quarantine) [] := by
  have hseed : ∀ a : AccessLog,
      (blobs.foldl (fun a b => a.seedWritten b.digest now) a).nextTick = a.nextTick ∧
        (blobs.foldl (fun a b => a.seedWritten b.digest now) a).lastTouch = a.lastTouch := by
    intro a
    induction blobs generalizing a with
    | nil => exact ⟨rfl, rfl⟩
    | cons b blobs ih => exact ih _
  refine ⟨⟨budget, grace, rfl⟩, (hseed .empty).1, ?_⟩
  intro d _
  have htouch : (CasStore.new inner (.lru budget grace) now blobs quarantine).state.access.lastTouch =
      ∅ := (hseed .empty).2
  rw [htouch]
  rfl

/-! ## The order of a pass -/

section Order

variable {α : Type*} {r S : α → α → Prop} [DecidableRel r]

theorem pairwise_orderedInsert {a : α} {l : List α} (hover : ∀ b, ¬ r a b → S b a)
    (ha : ∀ b ∈ l, S a b) (hl : l.Pairwise S) : (l.orderedInsert r a).Pairwise S := by
  induction l with
  | nil => exact List.pairwise_singleton S a
  | cons b l ih =>
    rw [List.pairwise_cons] at hl
    rw [List.orderedInsert]
    split
    · exact List.pairwise_cons.mpr ⟨ha, List.pairwise_cons.mpr hl⟩
    · next hnot =>
      refine List.pairwise_cons.mpr ⟨?_, ih (fun c hc => ha c (List.mem_cons_of_mem _ hc)) hl.2⟩
      intro c hc
      rcases (List.mem_orderedInsert r).mp hc with rfl | hc
      · exact hover b hnot
      · exact hl.1 c hc

/-- The sort moves an element only over those it is not below, so a relation that allows this
survives it. -/
theorem pairwise_insertionSort_of {l : List α} (hover : ∀ a b, ¬ r a b → S b a)
    (hl : l.Pairwise S) : (l.insertionSort r).Pairwise S := by
  induction l with
  | nil => exact .nil
  | cons a l ih =>
    rw [List.pairwise_cons] at hl
    refine pairwise_orderedInsert (hover a) ?_ (ih hl.2)
    exact fun b hb => hl.1 b ((List.mem_insertionSort r).mp hb)

end Order

/-- `x` carries the tick of the first use, `y` none, and they are of the same class. -/
def Tied (s : CasStore) (replicated : List Digest) (x y : LocalBlob) : Prop :=
  s.state.access.lastTouch.lookup x.digest = some 0 ∧
    s.state.access.lastTouch.lookup y.digest = none ∧
      (x.digest ∈ replicated ↔ y.digest ∈ replicated)

instance (s : CasStore) (replicated : List Digest) (x y : LocalBlob) :
    Decidable (Tied s replicated x y) := inferInstanceAs (Decidable (_ ∧ _))

/-- The victims of a class are in the order of their ticks, and a tie is broken as listed. -/
theorem victims_pairwise {s : CasStore} {replicated : List Digest} {blobs : List LocalBlob}
    (huntied : blobs.Pairwise fun x y => ¬ Tied s replicated x y) :
    (victims s replicated blobs).Pairwise fun u v => u.2 = v.2 →
      s.state.access.tick u.1.digest ≤ s.state.access.tick v.1.digest ∧
        ¬ Tied s replicated u.1 v.1 := by
  have hsorted : (coldestFirst s blobs).Pairwise fun x y =>
      s.state.access.tick x.digest ≤ s.state.access.tick y.digest ∧ ¬ Tied s replicated x y := by
    refine List.Pairwise.and ?_ (pairwise_insertionSort_of ?_ huntied)
    · have htotal : Std.Total fun x y : LocalBlob =>
          s.state.access.tick x.digest ≤ s.state.access.tick y.digest :=
        ⟨fun x y => Nat.le_total _ _⟩
      have htrans : IsTrans LocalBlob fun x y =>
          s.state.access.tick x.digest ≤ s.state.access.tick y.digest :=
        ⟨fun x y z => Nat.le_trans⟩
      exact List.pairwise_insertionSort _ blobs
    · rintro x y hnot ⟨-, hnone, -⟩
      have hzero : s.state.access.tick x.digest = 0 := by rw [AccessLog.tick, hnone]; rfl
      exact hnot (hzero ▸ Nat.zero_le _)
  have hclass : ∀ (p : LocalBlob → Bool) (sole : Bool),
      (((coldestFirst s blobs).filter p).map (·, sole)).Pairwise fun u v => u.2 = v.2 →
        s.state.access.tick u.1.digest ≤ s.state.access.tick v.1.digest ∧
          ¬ Tied s replicated u.1 v.1 := by
    intro p sole
    refine List.pairwise_map.mpr ((hsorted.filter p).imp ?_)
    intro x y h _
    exact h
  rw [victims_eq]
  refine List.pairwise_append.mpr ⟨hclass _ _, hclass _ _, ?_⟩
  rintro u hu v hv heq
  obtain ⟨x, -, rfl⟩ := List.mem_map.mp hu
  obtain ⟨y, -, rfl⟩ := List.mem_map.mp hv
  cases heq

/-! ## Eviction against the uses -/

/-- If the pass took `x`, which was used, it took every candidate `y` of its class that was not used
since. -/
def FollowsRecency (s t : CasStore) (uses : List Digest) (evs : List EvictEvent) : Prop :=
  ∀ budget grace pinned blobs now replicated rest, s.mode = .lru budget grace →
    evs = .roots pinned :: .list blobs :: .snapshot now :: .order replicated :: rest →
    ∀ x ∈ candidates s now grace pinned blobs, ∀ y ∈ candidates s now grace pinned blobs,
      (x.digest ∈ replicated ↔ y.digest ∈ replicated) →
      x.digest ∈ uses → y.digest ∉ uses.takeWhile (· ≠ x.digest) →
      t.inner.has x.digest = false → t.inner.has y.digest = false

/-- Among the candidates the pass will choose, the blob of the first use does not stand before one
never used, of its class. -/
def Untied (s : CasStore) : List EvictEvent → Prop
  | .roots pinned :: .list blobs :: .snapshot now :: .order replicated :: _ =>
    match s.mode with
    | .lru _ grace =>
      (candidates s now grace pinned blobs).Pairwise fun x y => ¬ Tied s replicated x y
    | .writeOnly _ => True
  | _ => True

instance (s : CasStore) (evs : List EvictEvent) : Decidable (Untied s evs) := by
  unfold Untied
  split
  · split
    · infer_instance
    · infer_instance
  · infer_instance

/-- A pass with these answers, once it is over its budget, drains the victims they choose. -/
theorem pass_drains {s t : CasStore} {budget grace now : Nat} {pinned : Finset Digest}
    {blobs : List LocalBlob} {replicated : List Digest} {rest : List EvictEvent}
    (hm : s.mode = .lru budget grace)
    (h : s.passAlone (.roots pinned :: .list blobs :: .snapshot now :: .order replicated :: rest) =
      some t) :
    s.inner.IterLocal blobs ∧
      ∃ gone, gone <+: victims s replicated (candidates s now grace pinned blobs) ∧
        Behind s t (gone.map fun v => v.1.digest) := by
  unfold CasStore.passAlone at h
  split at h
  · next t' out hrun =>
    cases h
    have hrun := run_sound hrun
    cases hrun with
    | cons _ hroots hrun =>
      simp only [Evictor.step, hm, Option.some.injEq] at hroots
      subst hroots
      cases hrun with
      | cons _ hlist hrun =>
        by_cases hl : s.inner.IterLocal blobs
        · by_cases hle : (blobs.map LocalBlob.sizeBytes).sum ≤ budget
          · simp only [Evictor.step, hm, if_pos hl, if_pos hle, Option.some.injEq] at hlist
            subst hlist
            cases hrun with
            | cons _ hsnapshot _ => simp [Evictor.step] at hsnapshot
          · simp only [Evictor.step, hm, if_pos hl, if_neg hle, Option.some.injEq] at hlist
            subst hlist
            cases hrun with
            | cons _ hsnapshot hrun =>
              simp only [Evictor.step, hm, Option.some.injEq] at hsnapshot
              subst hsnapshot
              cases hrun with
              | cons _ horder hrun =>
                cases horder
                exact ⟨hl, hrun.keeps (I := Draining s _) (fun _ hd hst => hd.step hst)
                  ⟨[], rfl, .nil s⟩⟩
        · simp only [Evictor.step, hm, if_neg hl, reduceCtorEq] at hlist
  · cases h

/-- In every run, a pass that lists no tie the wrong way round follows recency. -/
theorem eviction_follows_recency {H : HashFn} {inner : LocalCas} {budget grace now : Nat}
    {blobs : List LocalBlob} {quarantine : List QuarantinedBlob} {calls : List LruCall}
    {s t : CasStore} {uses : List Digest}
    (hrun : Run (CasStore.serveUses H) (fun _ _ => True)
      (.new inner (.lru budget grace) now blobs quarantine, []) calls (s, uses))
    {evs : List EvictEvent} (huntied : Untied s evs) (hpass : s.passAlone evs = some t) :
    FollowsRecency s t uses evs := by
  have htracks : Tracks s uses :=
    hrun.keeps (I := fun x => Tracks x.1 x.2) (fun _ h hst => h.step hst)
      (tracks_new inner budget grace now blobs quarantine)
  rintro budget' grace' pinned listed now' replicated rest hm rfl x hx y hy hclass hused hsince hgone
  simp only [Untied, hm] at huntied
  obtain ⟨hl, gone, hfirst, hbehind⟩ := pass_drains hm hpass
  have hheld : ∀ b ∈ candidates s now' grace' pinned listed, s.inner.has b.digest = true := by
    intro b hb
    rw [LocalCas.has, hl.2.1 b (List.mem_of_mem_filter hb)]
    rfl
  rw [hbehind.has, hheld x hx, Bool.true_and, decide_eq_false_iff_not, not_not] at hgone
  rw [hbehind.has, hheld y hy, Bool.true_and, decide_eq_false_iff_not, not_not]
  by_contra hkept
  have hne : y.digest ≠ x.digest := fun heq => hkept (heq ▸ hgone)
  -- `x` went and `y` stayed, so `x` is before `y` among the victims
  obtain ⟨u, hu, hux⟩ := List.mem_map.mp hgone
  obtain ⟨v, hv, hvy⟩ := List.mem_map.mp ((victims_perm s replicated _).mem_iff.mpr hy)
  obtain ⟨rest', hsplit⟩ := hfirst
  have hbefore := victims_pairwise huntied
  have huvictim : u ∈ victims s replicated (candidates s now' grace' pinned listed) :=
    hsplit ▸ List.mem_append_left _ hu
  have hflags : u.2 = v.2 := by
    have husole := sole_iff_of_mem_victims huvictim
    have hvsole := sole_iff_of_mem_victims hv
    rw [hux] at husole
    rw [hvy, ← not_congr hclass, ← husole] at hvsole
    exact Bool.eq_iff_iff.mpr hvsole.symm
  rw [← hsplit] at hv hbefore
  have hvrest : v ∈ rest' := by
    rcases List.mem_append.mp hv with hv | hv
    · exact absurd (List.mem_map.mpr ⟨v, hv, by rw [hvy]⟩) hkept
    · exact hv
  obtain ⟨hle, hnot⟩ := (List.pairwise_append.mp hbefore).2.2 u hu v hvrest hflags
  rw [hux, hvy] at hle
  -- the ticks are the last uses
  obtain ⟨i, hi, hlater⟩ := lastUse_lt_of_not_since hused hsince hne
  have hxtouch := (htracks.held x.digest (hheld x hx)).trans hi
  have hytouch := htracks.held y.digest (hheld y hy)
  cases hj : lastUse uses y.digest with
  | some j =>
    rw [hj] at hytouch
    rw [AccessLog.tick, AccessLog.tick, hxtouch, hytouch] at hle
    exact absurd (hlater j hj) (Nat.not_lt.mpr hle)
  | none =>
    rw [hj] at hytouch
    rw [AccessLog.tick, AccessLog.tick, hxtouch, hytouch] at hle
    have hzero : i = 0 := Nat.le_zero.mp hle
    refine hnot ⟨?_, ?_, ?_⟩
    · rw [hux, hxtouch, hzero]
    · rw [hvy, hytouch]
    · rw [hux, hvy]
      exact hclass

/-! ## The tie -/

/-- A store of one byte, opened over two blobs of one byte each. -/
def twoUnused : CasStore :=
  .new ⟨.disk, Finmap.insert (.compute .short [2]) [2] (Finmap.singleton (.compute .short [1]) [1]),
    ∅, false⟩ (.lru 1 0) 0 [⟨.compute .short [1], 1⟩, ⟨.compute .short [2], 1⟩] []

/-- A pass that removes one blob, with the inventory in this order. -/
def passOver (blobs : List LocalBlob) : List EvictEvent :=
  [.roots ∅, .list blobs, .snapshot 0, .order [], .reclaim, .forget, .reclaim]

/-- The first use of all does not protect a blob: it goes before one never used. -/
theorem eviction_against_recency :
    ∃ s t uses,
      Run (CasStore.serveUses .short) (fun _ _ => True) (twoUnused, []) [.get (.compute .short [1])]
        (s, uses) ∧
      s.passAlone (passOver [⟨.compute .short [1], 1⟩, ⟨.compute .short [2], 1⟩]) = some t ∧
      ¬ FollowsRecency s t uses
        (passOver [⟨.compute .short [1], 1⟩, ⟨.compute .short [2], 1⟩]) := by
  obtain ⟨⟨s, uses⟩, hrun, huses, hm, hcands, t, ht, hgone, hkept⟩ :
      ∃ x, run (CasStore.serveUses .short) (fun _ _ => True) (twoUnused, [])
          [.get (.compute .short [1])] = some x ∧
        x.2 = [.compute .short [1]] ∧ x.1.mode = .lru 1 0 ∧
        candidates x.1 0 0 ∅ [⟨.compute .short [1], 1⟩, ⟨.compute .short [2], 1⟩] =
          [⟨.compute .short [1], 1⟩, ⟨.compute .short [2], 1⟩] ∧
        ∃ t ∈ x.1.passAlone (passOver [⟨.compute .short [1], 1⟩, ⟨.compute .short [2], 1⟩]),
          t.inner.has (.compute .short [1]) = false ∧ t.inner.has (.compute .short [2]) = true :=
    run_exists (by decide +kernel)
  refine ⟨s, t, uses, run_sound hrun, ht, ?_⟩
  intro hfollows
  dsimp only at huses
  have hgone' := hfollows 1 0 ∅ _ 0 [] _ hm rfl ⟨.compute .short [1], 1⟩ (by rw [hcands]; simp)
    ⟨.compute .short [2], 1⟩ (by rw [hcands]; simp) (by simp) (by rw [huses]; simp)
    (by rw [huses]; simp) hgone
  rw [hkept] at hgone'
  cases hgone'

/-- Listed the other way round, the blob that was used stays. -/
theorem eviction_follows_recency_reversed :
    ∃ s t uses,
      Run (CasStore.serveUses .short) (fun _ _ => True) (twoUnused, []) [.get (.compute .short [1])]
        (s, uses) ∧
      s.passAlone (passOver [⟨.compute .short [2], 1⟩, ⟨.compute .short [1], 1⟩]) = some t ∧
      FollowsRecency s t uses (passOver [⟨.compute .short [2], 1⟩, ⟨.compute .short [1], 1⟩]) := by
  obtain ⟨⟨s, uses⟩, hrun, huntied, hpass⟩ :
      ∃ x, run (CasStore.serveUses .short) (fun _ _ => True) (twoUnused, [])
          [.get (.compute .short [1])] = some x ∧
        Untied x.1 (passOver [⟨.compute .short [2], 1⟩, ⟨.compute .short [1], 1⟩]) ∧
        (x.1.passAlone
          (passOver [⟨.compute .short [2], 1⟩, ⟨.compute .short [1], 1⟩])).isSome = true :=
    run_exists (by decide +kernel)
  obtain ⟨t, ht⟩ := Option.isSome_iff_exists.mp hpass
  have hrun := run_sound hrun
  exact ⟨s, t, uses, hrun, ht, eviction_follows_recency hrun huntied ht⟩

end NessieStore
