import NessieStore.Swarm.ScrubPass

/-!
# What a scrub covers

Do enough passes verify every live blob? The live scan resumes where it stopped, so it is enough that
each pass verifies one blob, and a pass does unless its retries have spent the budget first. The
retries may: they are charged what a peer announces, and a peer that announces a pending blob and
never delivers it is charged for again in every pass. While the pending digests cannot announce as
much as the budget without being refused by the gate (`RetriesFit`), one pass more than there are
blobs covers the inventory from any cursor (`coveredIn_of_retriesFit`). Otherwise peers exist that
keep every pass from verifying anything (`not_coveredIn`).
-/

set_option autoImplicit false
namespace NessieStore
open Lib

/-- Blobs, books and reservations are as they were. -/
structure Still (s t : CasStore) : Prop extends SameBooks s t where
  pending : t.pending = s.pending

namespace Still

theorem refl (s : CasStore) : Still s s := ⟨.rfl' s, rfl⟩

theorem trans {s t u : CasStore} (h : Still s t) (h' : Still t u) : Still s u :=
  ⟨h.toSameBooks.trans h'.toSameBooks, h'.pending.trans h.pending⟩

theorem admits {s t : CasStore} (h : Still s t) (n : Nat) : t.admits n = s.admits n := by
  unfold CasStore.admits
  rw [h.mode, h.mirror, h.pending]

theorem roomFor {s t : CasStore} (h : Still s t) (a : PeerAnswers) (d : Digest) :
    t.roomFor a d = s.roomFor a d := by
  simp only [CasStore.roomFor, CasStore.size, h.inner, h.admits]

end Still

namespace CasStore

variable {H : HashFn} {a : PeerAnswers}

/-- A read changes the access log at most. -/
theorem get_still (s : CasStore) (d : Digest) : Still s (s.get H a d).2 := by
  have hwarm : Still s { s with state := { s.state with access := s.state.access.touch d } } :=
    ⟨⟨rfl, rfl, rfl, rfl, rfl, rfl⟩, rfl⟩
  unfold get
  split
  · exact hwarm
  · split
    · exact hwarm
    · exact .refl s
  · exact .refl s

/-- A restore that fails leaves blobs, books and reservations alone. -/
theorem restore_error {s t : CasStore} {d : Digest} {e : BackendError}
    (h : s.restore H a d = (.error e, t)) : Still s t := by
  have hget := get_still (H := H) (a := a) s d
  unfold restore at h
  split at h
  · next e' u hu =>
    cases h
    rw [hu] at hget
    exact hget
  · next bytes u hu =>
    rw [hu] at hget
    cases hput : u.putKeyed H d bytes (a.write d) with
    | none =>
      simp only [putKeyedLocal, hput, Option.map_none, Option.getD_none] at h
      cases h
      exact hget
    | some r =>
      obtain ⟨out, v⟩ := r
      obtain ⟨hpend, hspec⟩ := putKeyed_spec hput
      simp only [putKeyedLocal, hput, Option.map_some, Option.getD_some] at h
      cases out with
      | ok _ => cases h
      | error e' =>
        cases h
        exact hget.trans ⟨hspec, hpend⟩

/-- Without a body from any peer, a blob that is not held is not restored. -/
theorem restore_undelivered {s : CasStore} {d : Digest} (hmiss : s.inner.has d = false)
    (hnone : a.bodies d = []) : s.restore H a d = (.error (.blobNotFound d), s) := by
  have hlookup := LocalCas.has_eq_false_iff.mp hmiss
  simp [restore, get, LocalCas.get, hlookup, hnone]

/-- What trying to restore a digest costs the budget. -/
def cost (a : PeerAnswers) (s : CasStore) (d : Digest) : Nat :=
  match s.roomFor a d with
  | .fits n => n
  | _ => 0

/-- What is true of the retries when none of them succeeds. -/
structure Retried (a : PeerAnswers) (ds : List Digest) (spent : Nat) (r : ScrubReport)
    (s : CasStore) (out : List Digest × Nat × ScrubReport × CasStore) : Prop where
  tried : out.1 <+: ds
  grows : r.restored ≤ out.2.2.1.restored
  still : out.2.2.1.restored = r.restored → Still s out.2.2.2
  spent_le : out.2.2.1.restored = r.restored → out.2.1 ≤ spent + (out.1.map (s.cost a)).sum

/-- One turn of the loop of `retry_pending`: what it spends is at most the cost, and a turn that
restores nothing changes nothing. -/
theorem Retried.cons {ds : List Digest} {d : Digest} {spent spent' : Nat} {r r' : ScrubReport}
    {s s' : CasStore} {out : List Digest × Nat × ScrubReport × CasStore}
    (h : Retried a ds spent' r' s' out) (hgrow : r.restored ≤ r'.restored)
    (hstill : r'.restored = r.restored → Still s s') (hspent : spent' ≤ spent + s.cost a d) :
    Retried a (d :: ds) spent r s (d :: out.1, out.2) := by
  have hquiet : out.2.2.1.restored = r.restored →
      r'.restored = r.restored ∧ out.2.2.1.restored = r'.restored := by
    intro heq
    have := h.grows
    omega
  refine ⟨List.cons_prefix_cons.mpr ⟨rfl, h.tried⟩, hgrow.trans h.grows, ?_, ?_⟩
  · intro heq
    exact (hstill (hquiet heq).1).trans (h.still (hquiet heq).2)
  · intro heq
    have hsame : s'.cost a = s.cost a := by
      funext d'
      unfold cost
      rw [(hstill (hquiet heq).1).roomFor]
    have hrest := h.spent_le (hquiet heq).2
    rw [hsame] at hrest
    simp only [List.map_cons, List.sum_cons]
    omega

theorem retryFrom_retried (budget : Nat) (ds : List Digest) (spent : Nat) (r : ScrubReport)
    (s : CasStore) : Retried a ds spent r s (retryFrom H a budget ds spent (r, s)) := by
  induction ds generalizing spent r s with
  | nil => exact ⟨List.prefix_rfl, le_rfl, fun _ => .refl s, fun _ => by simp [retryFrom]⟩
  | cons d ds ih =>
    simp only [retryFrom]
    split
    · exact ⟨List.nil_prefix, le_rfl, fun _ => .refl s, fun _ => by simp⟩
    · split
      · exact (ih spent r s).cons le_rfl (fun _ => .refl s) (Nat.le_add_right _ _)
      · exact (ih spent _ s).cons le_rfl (fun _ => .refl s) (Nat.le_add_right _ _)
      · next n hroom =>
        have hcost : s.cost a d = n := by simp only [cost, hroom]
        have hspent : saturatingAdd spent n ≤ spent + s.cost a d := by
          rw [hcost]
          exact saturatingAdd_le spent n
        split
        · next t ht =>
          refine (ih _ _ t).cons (Nat.le_add_right _ 1) (fun heq => ?_) hspent
          exact absurd heq (Nat.succ_ne_self _)
        · next e t ht =>
          exact (ih _ r t).cons le_rfl (fun _ => restore_error ht) hspent

/-! ## The scan -/

theorem repair_restored (mirror : Option Nat) (d : Digest) (r : ScrubReport) :
    (repair a mirror d r).restored = r.restored := by
  unfold repair
  repeat' split
  all_goals rfl

theorem takeOutCorrupt_restored_le (s : CasStore) (d : Digest) (r : ScrubReport) :
    r.restored ≤ (s.takeOutCorrupt H a d r).2.1.restored := by
  unfold takeOutCorrupt
  split
  · unfold reclaimIfStillCorrupt
    split <;> exact le_rfl
  · split
    · split
      · exact Nat.le_succ _
      · exact le_rfl
    · exact le_rfl
    · exact le_rfl
    · exact le_rfl

theorem scrubOne_restored_le (mirror : Option Nat) (d : Digest) (x : ScrubReport × CasStore) :
    x.1.restored ≤ (scrubOne H a mirror d x).1.restored := by
  obtain ⟨r, s⟩ := x
  simp only [scrubOne]
  split
  · rw [repair_restored]
  · have hle := takeOutCorrupt_restored_le (H := H) (a := a) s d
      { r with scanned := r.scanned + 1, corrupt := r.corrupt + 1 }
    split
    · next hout =>
      rw [hout] at hle
      rw [repair_restored]
      exact hle
    · next hout =>
      rw [hout] at hle
      exact hle
  · exact le_rfl

/-- A scan does not take a restore back. -/
theorem scanFrom_restored_le (mirror : Option Nat) (budget : Nat) (bs : List LocalBlob)
    (spent : Nat) (started : Bool) (x : ScrubReport × CasStore) :
    x.1.restored ≤ (scanFrom H a mirror budget bs spent started x).2.1.restored := by
  induction bs generalizing spent started x with
  | nil => exact le_rfl
  | cons b bs ih =>
    rw [scanFrom]
    split
    · exact le_rfl
    · exact (scrubOne_restored_le mirror b.digest x).trans (ih _ _ _)

/-- A healthy blob is verified and stays where it is. -/
theorem scrubOne_healthy {mirror : Option Nat} {d : Digest} {r : ScrubReport} {s : CasStore}
    (h : s.inner.verify H d = .ok true) : (scrubOne H a mirror d (r, s)).2 = s := by
  simp only [scrubOne, h]

/-- A scan of healthy blobs verifies some of them from the front, none only if the budget is spent,
and changes nothing. -/
theorem scanFrom_healthy (mirror : Option Nat) (budget : Nat) {s : CasStore} (bs : List LocalBlob)
    (hok : ∀ b ∈ bs, s.inner.verify H b.digest = .ok true) (spent : Nat) (started : Bool)
    (r : ScrubReport) :
    ∃ k ≤ bs.length,
      (scanFrom H a mirror budget bs spent started (r, s)).1 =
        (bs.take k).map (fun b => (b, .ok true)) ∧
      (scanFrom H a mirror budget bs spent started (r, s)).2.2 = s ∧
      (bs ≠ [] → (k = 0 ↔ budget ≤ spent ∧ (started = true ∨ 0 < spent))) := by
  induction bs generalizing spent started r with
  | nil => exact ⟨0, le_rfl, rfl, rfl, fun h => absurd rfl h⟩
  | cons b bs ih =>
    rw [scanFrom]
    split
    · next hstop => exact ⟨0, Nat.zero_le _, rfl, rfl, fun _ => iff_of_true rfl hstop⟩
    · next hgo =>
      have hb := hok b List.mem_cons_self
      obtain ⟨r', hone⟩ : ∃ r', scrubOne H a mirror b.digest (r, s) = (r', s) :=
        ⟨_, Prod.ext rfl (scrubOne_healthy hb)⟩
      obtain ⟨k, hk, hvisited, hstore, -⟩ :=
        ih (fun b hb => hok b (List.mem_cons_of_mem _ hb)) (saturatingAdd spent b.sizeBytes) true r'
      dsimp only
      rw [hone]
      refine ⟨k + 1, Nat.succ_le_succ hk, ?_, hstore, fun _ => ?_⟩
      · rw [hvisited, hb, List.take_succ_cons, List.map_cons]
      · exact iff_of_false (Nat.succ_ne_zero k) hgo

end CasStore

/-! ## A pass -/

namespace ScrubNode

variable {H : HashFn} {a : PeerAnswers}

/-- No live copy is corrupt. -/
def Healthy (H : HashFn) (n : ScrubNode) : Prop :=
  ∀ d, n.store.inner.has d = true → n.store.inner.verify H d = .ok true

/-- Where the live scan resumes. -/
def pos (n : ScrubNode) : Nat := start LocalBlob.digest n.store.inner.inventory n.scrubCursor

/-- Nothing that a later pass looks at has changed but the cursors. -/
structure Steady (n n' : ScrubNode) : Prop where
  store : Still n.store n'.store
  budget : n'.scrubBudget = n.scrubBudget

theorem Steady.healthy {n n' : ScrubNode} (h : Steady n n') (hok : n.Healthy H) : n'.Healthy H := by
  intro d hd
  rw [h.store.inner] at hd ⊢
  exact hok d hd

theorem verify_inventory {n : ScrubNode} (hok : n.Healthy H) {b : LocalBlob}
    (hb : b ∈ n.store.inner.inventory) : n.store.inner.verify H b.digest = .ok true := by
  exact hok _ (LocalCas.has_iff_inventory.mpr ⟨b, hb, rfl⟩)

/-- The retries of a pass: nothing but their cursor changes when none of them succeeds. -/
theorem retryPending_spec (n : ScrubNode) :
    (n.retryPending H a).2.2.scrubCursor = n.scrubCursor ∧
    ((n.retryPending H a).2.1.restored = 0 → Steady n (n.retryPending H a).2.2) := by
  unfold retryPending
  split
  · exact ⟨rfl, fun _ => ⟨.refl _, rfl⟩⟩
  · exact ⟨rfl, fun h => ⟨(CasStore.retryFrom_retried _ _ _ _ _).still h, rfl⟩⟩

theorem countQuarantine_restored (s : CasStore) (r : ScrubReport) :
    (countQuarantine s r).restored = r.restored := by
  unfold countQuarantine
  split <;> rfl

theorem start_le {α : Type} (digest : α → Digest) (l : List α) (cursor : Option (List Char)) :
    start digest l cursor ≤ l.length := resume_le l _

/-- Where the next scan of the same list resumes, after one of `k` elements from `p`. -/
theorem start_cursorBehind {α : Type} {digest : α → Digest} {l : List α}
    (hl : l.Pairwise fun x y => nameKey (digest x).toText < nameKey (digest y).toText) {p k : Nat}
    (hk : 0 < k) (hend : p + k ≤ l.length) :
    start digest l (cursorBehind l.length p (((l.drop p).take k).map digest)) =
      if p + k < l.length then p + k else 0 := by
  rw [← resume_behind hl hk hend, start]
  congr 1
  unfold cursorBehind behind
  rw [List.length_map, List.length_map]
  split
  · rw [List.getLast?_map, List.getLast?_map, Option.map_map, Option.map_map]
    rfl
  · rfl

/-- What a pass over healthy blobs does when it restores nothing: it verifies `k` of them from where
the scan resumes, none only if the retries have spent the budget or the cursor is past the end. -/
structure Advances (H : HashFn) (a : PeerAnswers) (n : ScrubNode) (k : Nat) : Prop where
  steady : Steady n (n.scrubPass H a).node
  retries : (n.retryPending H a).2.1.restored = 0
  within : n.pos + k ≤ n.store.inner.inventory.length
  visited : (n.scrubPass H a).visited =
    ((n.store.inner.inventory.drop n.pos).take k).map (fun b => (b, .ok true))
  none_iff : n.pos < n.store.inner.inventory.length →
    (k = 0 ↔ n.scrubBudget ≤ (n.retryPending H a).1)
  pos_next : (n.scrubPass H a).node.pos =
    if 0 < k then (if n.pos + k < n.store.inner.inventory.length then n.pos + k else 0)
    else if n.store.inner.inventory.length ≤ n.pos then 0 else n.pos

theorem scrubPass_advances {n : ScrubNode} (hb : 0 < n.scrubBudget) (hok : n.Healthy H)
    (hquiet : (n.scrubPass H a).report.restored = 0) : ∃ k, Advances H a n k := by
  suffices h : Steady n (n.scrubPass H a).node ∧ (n.retryPending H a).2.1.restored = 0 ∧
      ∃ k, n.pos + k ≤ n.store.inner.inventory.length ∧
      (n.scrubPass H a).visited =
        ((n.store.inner.inventory.drop n.pos).take k).map (fun b => (b, .ok true)) ∧
      (n.pos < n.store.inner.inventory.length →
        (k = 0 ↔ n.scrubBudget ≤ (n.retryPending H a).1)) ∧
      (n.scrubPass H a).node.pos =
        if 0 < k then (if n.pos + k < n.store.inner.inventory.length then n.pos + k else 0)
        else if n.store.inner.inventory.length ≤ n.pos then 0 else n.pos by
    obtain ⟨hsteady, hretries, k, hwithin, hvisited, hnone, hpos⟩ := h
    exact ⟨k, hsteady, hretries, hwithin, hvisited, hnone, hpos⟩
  obtain ⟨hcursor, hsteady⟩ := retryPending_spec (H := H) (a := a) n
  unfold scrubPass at hquiet ⊢
  rw [if_neg (Nat.ne_of_gt hb)] at hquiet ⊢
  generalize n.retryPending H a = out at hcursor hsteady hquiet ⊢
  obtain ⟨spent, r, m⟩ := out
  dsimp only at hcursor hsteady hquiet ⊢
  rw [countQuarantine_restored] at hquiet
  have hr : r.restored = 0 := by
    apply Nat.le_zero.mp
    rw [← hquiet]
    exact CasStore.scanFrom_restored_le m.mirror m.scrubBudget _ spent false (r, m.store)
  replace hsteady := hsteady hr
  have hinv : m.store.inner.inventory = n.store.inner.inventory := by rw [hsteady.store.inner]
  have hpos : start LocalBlob.digest m.store.inner.inventory m.scrubCursor = n.pos := by
    rw [hinv, hcursor]
    rfl
  rw [hpos, hinv]
  have hpasses : ∀ b ∈ n.store.inner.inventory.drop n.pos,
      m.store.inner.verify H b.digest = .ok true := fun b hb => by
    rw [hsteady.store.inner]
    exact verify_inventory hok (List.mem_of_mem_drop hb)
  obtain ⟨k, hk, hvisited, hstore, hnone⟩ := CasStore.scanFrom_healthy (a := a) m.mirror
    m.scrubBudget (n.store.inner.inventory.drop n.pos) hpasses spent false r
  have hend : n.pos + k ≤ n.store.inner.inventory.length := by
    rw [List.length_drop] at hk
    have := start_le LocalBlob.digest n.store.inner.inventory n.scrubCursor
    have hdef : n.pos = start LocalBlob.digest n.store.inner.inventory n.scrubCursor := rfl
    omega
  rw [hvisited, hstore]
  refine ⟨⟨hsteady.store, hsteady.budget⟩, hr, k, hend, rfl, ?_, ?_⟩
  · intro hlt
    have hne : n.store.inner.inventory.drop n.pos ≠ [] := by
      rw [Ne, List.drop_eq_nil_iff]
      omega
    rw [hnone hne, hsteady.budget]
    simp only [Bool.false_eq_true, false_or, and_iff_left_iff_imp]
    omega
  · have hdigests : (((n.store.inner.inventory.drop n.pos).take k).map
        (fun b => (b, (Except.ok true : Except BackendError Bool)))).map (fun v => v.1.digest) =
        ((n.store.inner.inventory.drop n.pos).take k).map LocalBlob.digest := by
      rw [List.map_map]
      rfl
    rw [pos, hdigests]
    dsimp only
    rw [hinv]
    by_cases hk0 : 0 < k
    · have hne : ((n.store.inner.inventory.drop n.pos).take k).map
          (fun b => (b, (Except.ok true : Except BackendError Bool))) ≠ [] := by
        rw [Ne, List.map_eq_nil_iff, List.take_eq_nil_iff, List.drop_eq_nil_iff]
        omega
      rw [if_pos (.inl hne), if_pos hk0,
        start_cursorBehind (LocalCas.inventory_ascending n.store.inner) hk0 hend]
    · obtain rfl : k = 0 := by omega
      simp only [List.take_zero, List.map_nil, ne_eq, not_true_eq_false, false_or, Nat.lt_irrefl,
        if_false]
      split
      · next hstale =>
        have hnone' : cursorBehind n.store.inner.inventory.length n.pos [] = none := by
          unfold cursorBehind
          split <;> rfl
        rw [hnone']
        rfl
      · rw [hcursor]
        rfl

/-! ## Coverage -/

/-- The retries of a pass cannot spend the budget: in `lru` mode there are none, and in `write_only`
mode the pending digests, all of a size that the gate would admit, are below it. -/
def RetriesFit (n : ScrubNode) : Prop :=
  match n.store.mode with
  | .lru .. => True
  | .writeOnly _ => ∀ size, n.store.admits size = true →
      n.store.inner.pendingDigests.length * size < n.scrubBudget

/-- No pass restores a blob. -/
def Quiet (H : HashFn) (n : ScrubNode) (as : List PeerAnswers) : Prop :=
  ∀ p ∈ n.passes H as, p.report.restored = 0

/-- Wherever the cursors stand and whatever the peers answer, `N` passes that restore nothing verify
every live blob. -/
def CoveredIn (H : HashFn) (n : ScrubNode) (N : Nat) : Prop :=
  ∀ (scrub pending : Option (List Char)) (as : List PeerAnswers), as.length = N →
    { n with scrubCursor := scrub, pendingCursor := pending }.Quiet H as →
    ∀ d, n.store.inner.has d = true →
      ∃ p ∈ { n with scrubCursor := scrub, pendingCursor := pending }.passes H as, p.Verified d

theorem Steady.retriesFit {n n' : ScrubNode} (h : Steady n n') (hfit : n.RetriesFit) :
    n'.RetriesFit := by
  unfold RetriesFit at hfit ⊢
  simp only [h.store.mode, h.store.inner, h.store.admits, h.budget]
  exact hfit

/-- A sum of at most `m` numbers, each of which would fit `m` times. -/
theorem sum_lt_of_mul_lt {l : List Nat} {m bound : Nat} (hb : 0 < bound) (hlen : l.length ≤ m)
    (h : ∀ x ∈ l, m * x < bound) : l.sum < bound := by
  have hsum : m * l.sum ≤ l.length * (bound - 1) := by
    clear hlen
    induction l with
    | nil => simp
    | cons x l ih =>
      have hx := h x List.mem_cons_self
      have hrest := ih fun y hy => h y (List.mem_cons_of_mem _ hy)
      rw [List.sum_cons, List.length_cons, Nat.mul_add, Nat.succ_mul]
      omega
  rcases Nat.eq_zero_or_pos m with rfl | hm
  · rw [List.eq_nil_of_length_eq_zero (Nat.le_zero.mp hlen)]
    exact hb
  · have hle : m * l.sum ≤ m * (bound - 1) := hsum.trans (Nat.mul_le_mul_right _ hlen)
    have := Nat.le_of_mul_le_mul_left hle hm
    omega

theorem retryPending_lt {n : ScrubNode} (hb : 0 < n.scrubBudget) (hfit : n.RetriesFit)
    (hquiet : (n.retryPending H a).2.1.restored = 0) :
    (n.retryPending H a).1 < n.scrubBudget := by
  unfold retryPending at hquiet ⊢
  unfold RetriesFit at hfit
  split at hquiet
  · exact hb
  · next hmode =>
    simp only [hmode] at hfit
    dsimp only at hquiet ⊢
    have hretried := CasStore.retryFrom_retried (H := H) (a := a) n.scrubBudget
      (n.store.inner.pendingDigests.drop
        (start id n.store.inner.pendingDigests n.pendingCursor)) 0 {} n.store
    refine (hretried.spent_le hquiet).trans_lt ?_
    rw [Nat.zero_add]
    apply sum_lt_of_mul_lt hb (m := n.store.inner.pendingDigests.length)
    · rw [List.length_map]
      exact hretried.tried.length_le.trans (List.length_drop ▸ Nat.sub_le _ _)
    · intro x hx
      obtain ⟨d, -, rfl⟩ := List.mem_map.mp hx
      unfold CasStore.cost CasStore.roomFor
      split
      · next size hroom =>
        split at hroom
        · split at hroom
          · next hadmits =>
            cases hroom
            exact hfit size hadmits
          · cases hroom
        · cases hroom
      · exact hb

/-- While the retries fit, a blob waits for its turn: by induction on the passes, each of which
verifies it or lowers its lag. -/
theorem verified_within {n : ScrubNode} (hb : 0 < n.scrubBudget) (hok : n.Healthy H)
    (hfit : n.RetriesFit) {i : Nat} {b : LocalBlob} (hi : n.store.inner.inventory[i]? = some b)
    {as : List PeerAnswers} (hlag : lag n.store.inner.inventory.length i n.pos < as.length)
    (hquiet : n.Quiet H as) : ∃ p ∈ n.passes H as, p.Verified b.digest := by
  induction as generalizing n with
  | nil => exact absurd hlag (Nat.not_lt_zero _)
  | cons a as ih =>
    obtain ⟨hpass, hrest⟩ := List.forall_mem_cons.mp hquiet
    obtain ⟨k, hadv⟩ := scrubPass_advances hb hok hpass
    have hlen : i < n.store.inner.inventory.length := (List.getElem?_eq_some_iff.mp hi).1
    by_cases hseen : n.pos ≤ i ∧ i < n.pos + k
    · refine ⟨_, List.mem_cons_self, (b, .ok true), ?_, rfl, rfl⟩
      rw [hadv.visited]
      refine List.mem_map.mpr ⟨b, List.mem_of_getElem? (i := i - n.pos) ?_, rfl⟩
      rw [List.getElem?_take_of_lt (by omega), List.getElem?_drop, Nat.add_sub_cancel' hseen.1, hi]
    · have hinv : (n.scrubPass H a).node.store.inner = n.store.inner := hadv.steady.store.inner
      have hlower : lag n.store.inner.inventory.length i (n.scrubPass H a).node.pos <
          lag n.store.inner.inventory.length i n.pos := by
        rw [hadv.pos_next]
        rcases Nat.lt_or_ge n.pos n.store.inner.inventory.length with hpos | hpos
        · have hk : 0 < k := by
            have hspent := retryPending_lt hb hfit hadv.retries
            have := hadv.none_iff hpos
            omega
          rw [if_pos hk]
          exact lag_advance hlen hk hadv.within hseen
        · have hk : ¬ 0 < k := by
            have := hadv.within
            omega
          rw [if_neg hk, if_pos hpos]
          exact lag_stale hlen hpos
      have hlag' : lag (n.scrubPass H a).node.store.inner.inventory.length i
          (n.scrubPass H a).node.pos < as.length := by
        rw [hinv]
        rw [List.length_cons] at hlag
        omega
      obtain ⟨p, hp, hverified⟩ := ih (hadv.steady.budget ▸ hb) (hadv.steady.healthy hok)
        (hadv.steady.retriesFit hfit) (hinv ▸ hi) hlag' hrest
      exact ⟨p, List.mem_cons_of_mem _ hp, hverified⟩

theorem coveredIn_of_retriesFit {n : ScrubNode} (hb : 0 < n.scrubBudget) (hok : n.Healthy H)
    (hfit : n.RetriesFit) : n.CoveredIn H (n.store.inner.inventory.length + 1) := by
  intro scrub pending as hlen hquiet d hd
  obtain ⟨b, hmem, rfl⟩ := LocalCas.has_iff_inventory.mp hd
  obtain ⟨i, hi⟩ := List.mem_iff_getElem?.mp hmem
  have hlt := (List.getElem?_eq_some_iff.mp hi).1
  refine verified_within (n := { n with scrubCursor := scrub, pendingCursor := pending }) hb hok hfit
    hi ?_ hquiet
  rw [hlen]
  exact Nat.lt_succ_of_le (lag_le hlt _)

/-! ## Starvation -/

/-- Peers that announce `size` bytes for the digests in `announced`, and deliver nothing. -/
def withholding (announced : List Digest) (size : Nat) : PeerAnswers where
  size d := if d ∈ announced then some size else none
  bodies _ := []
  write _ := []
  pushed _ := .ok ⟨0, 0⟩

/-- Digests that no peer reports cost nothing. -/
theorem retryFrom_skip {budget : Nat} {s : CasStore} {r : ScrubReport} {front : List Digest}
    (hnone : ∀ d ∈ front, s.roomFor a d = .noPeer) {spent : Nat} (hspent : spent < budget)
    (ds : List Digest) : CasStore.retryFrom H a budget (front ++ ds) spent (r, s) =
      (front ++ (CasStore.retryFrom H a budget ds spent (r, s)).1,
        (CasStore.retryFrom H a budget ds spent (r, s)).2) := by
  induction front with
  | nil => rfl
  | cons d front ih =>
    rw [List.cons_append, CasStore.retryFrom, if_neg (Nat.not_le.mpr hspent),
      hnone d List.mem_cons_self]
    dsimp only
    rw [ih fun d hd => hnone d (List.mem_cons_of_mem _ hd)]
    rfl

/-- Announced digests are all tried, and spend the budget with the last of them. -/
theorem retryFrom_withheld {budget size : Nat} (hbudget : budget ≤ u64Max) {s : CasStore}
    {r : ScrubReport} (ds : List Digest)
    (hfits : ∀ d ∈ ds, s.roomFor a d = .fits size ∧ s.inner.has d = false ∧ a.bodies d = [])
    {spent : Nat} (hbefore : ds ≠ [] → spent + (ds.length - 1) * size < budget)
    (hafter : budget ≤ spent + ds.length * size) :
    ∃ spent', CasStore.retryFrom H a budget ds spent (r, s) = (ds, spent', (r, s)) ∧
      budget ≤ spent' := by
  induction ds generalizing spent with
  | nil => exact ⟨spent, rfl, by simpa using hafter⟩
  | cons d ds ih =>
    obtain ⟨hroom, hmiss, hbodies⟩ := hfits d List.mem_cons_self
    have hb := hbefore (List.cons_ne_nil d ds)
    rw [List.length_cons, Nat.add_sub_cancel] at hb
    rw [List.length_cons, Nat.succ_mul] at hafter
    have hlt : ¬ budget ≤ spent := by omega
    have hnext : ds ≠ [] → saturatingAdd spent size + (ds.length - 1) * size < budget := by
      intro hne
      obtain ⟨j, hj⟩ : ∃ j, ds.length = j + 1 :=
        ⟨ds.length - 1, by have := List.length_pos_iff.mpr hne; omega⟩
      have := saturatingAdd_le spent size
      rw [hj, Nat.succ_mul] at hb
      rw [hj, Nat.add_sub_cancel]
      omega
    have hlast : budget ≤ saturatingAdd spent size + ds.length * size := by
      unfold saturatingAdd
      omega
    obtain ⟨spent', hrest, hspent'⟩ :=
      ih (fun d hd => hfits d (List.mem_cons_of_mem _ hd)) hnext hlast
    refine ⟨spent', ?_, hspent'⟩
    rw [CasStore.retryFrom, if_neg hlt, hroom]
    dsimp only
    rw [CasStore.restore_undelivered hmiss hbodies]
    dsimp only
    rw [hrest]

/-- When the retries do not fit, peers that announce and do not deliver make the retries of a pass
spend the whole budget and come to the end of their list. -/
theorem exists_withholding {n : ScrubNode} (hb : 0 < n.scrubBudget) (hfit : ¬ n.RetriesFit) :
    ∃ a : PeerAnswers, ∃ spent, n.scrubBudget ≤ spent ∧
      { n with pendingCursor := none }.retryPending H a =
        (spent, {}, { n with pendingCursor := none }) := by
  unfold RetriesFit at hfit
  split at hfit
  · exact absurd trivial hfit
  · next capacity hmode =>
    push Not at hfit
    obtain ⟨size, hadmits, hover⟩ := hfit
    have hex : ∃ k, n.scrubBudget ≤ k * size := ⟨_, hover⟩
    have hk := Nat.find_spec hex
    have hkm : Nat.find hex ≤ n.store.inner.pendingDigests.length := Nat.find_min' hex hover
    have hmin := fun j (hj : j < Nat.find hex) => Nat.find_min hex hj
    generalize Nat.find hex = k at hk hkm hmin
    -- the digests before the last `k` are not announced, so the walk reaches the end
    have hcut := List.take_append_drop (n.store.inner.pendingDigests.length - k)
      n.store.inner.pendingDigests
    have hnodup : n.store.inner.pendingDigests.Nodup := nodup_byText _
    have hdisj := List.disjoint_take_drop hnodup (le_refl (n.store.inner.pendingDigests.length - k))
    have hlen : (n.store.inner.pendingDigests.drop
        (n.store.inner.pendingDigests.length - k)).length = k := by
      rw [List.length_drop]
      omega
    have hmiss : ∀ d ∈ n.store.inner.pendingDigests, n.store.inner.size d = none := fun d hd => by
      simpa [LocalCas.has] using LocalCas.has_of_mem_pendingDigests hd
    generalize n.store.inner.pendingDigests.take (n.store.inner.pendingDigests.length - k) = front
      at hcut hdisj
    generalize n.store.inner.pendingDigests.drop (n.store.inner.pendingDigests.length - k) = back
      at hcut hdisj hlen
    refine ⟨withholding back size, ?_⟩
    have hquiet : ∀ d ∈ front, n.store.roomFor (withholding back size) d = .noPeer := by
      intro d hd
      have hsize := hmiss d (hcut ▸ List.mem_append_left _ hd)
      have hnot : d ∉ back := fun hback => hdisj hd hback
      simp only [CasStore.roomFor, CasStore.size, hsize, withholding, hnot, if_false]
    have hloud : ∀ d ∈ back, n.store.roomFor (withholding back size) d = .fits size ∧
        n.store.inner.has d = false ∧ (withholding back size).bodies d = [] := by
      intro d hd
      have hmem : d ∈ n.store.inner.pendingDigests := hcut ▸ List.mem_append_right _ hd
      have hsize := hmiss d hmem
      refine ⟨?_, LocalCas.has_of_mem_pendingDigests hmem, rfl⟩
      simp only [CasStore.roomFor, CasStore.size, hsize, withholding, hd, if_true, hadmits]
    have hbefore : back ≠ [] → 0 + (back.length - 1) * size < n.scrubBudget := by
      intro hne
      have hpos := List.length_pos_iff.mpr hne
      rw [Nat.zero_add]
      exact Nat.not_le.mp (hmin _ (by omega))
    obtain ⟨spent, hretry, hspent⟩ := retryFrom_withheld (H := H) (r := {}) n.budget_le back hloud
      hbefore (by rw [Nat.zero_add, hlen]; exact hk)
    refine ⟨spent, hspent, ?_⟩
    have hstart : start id n.store.inner.pendingDigests none = 0 := rfl
    have hend : cursorBehind n.store.inner.pendingDigests.length 0 n.store.inner.pendingDigests =
        none := if_neg (by omega)
    simp only [retryPending, hmode, hstart, List.drop_zero]
    rw [← hcut, retryFrom_skip hquiet hb, hretry, hcut]
    simp only [hend]

/-- A pass that such peers keep from scanning leaves the node as it was. -/
theorem scrubPass_starved {n : ScrubNode} (hb : 0 < n.scrubBudget)
    (hpos : n.pos < n.store.inner.inventory.length) {spent : Nat} (hspent : n.scrubBudget ≤ spent)
    (hretry : n.retryPending H a = (spent, {}, n)) :
    n.scrubPass H a = ⟨countQuarantine n.store {}, [], n⟩ := by
  have hstop : CasStore.scanFrom H a n.mirror n.scrubBudget
      (n.store.inner.inventory.drop n.pos) spent false ({}, n.store) = ([], {}, n.store) := by
    rw [List.drop_eq_getElem_cons hpos, CasStore.scanFrom, if_pos ⟨hspent, .inr (by omega)⟩]
  have hkeep : ¬ (n.store.inner.inventory.length ≤ n.pos) := Nat.not_le.mpr hpos
  unfold pos at hstop hkeep
  simp only [scrubPass, if_neg (Nat.ne_of_gt hb), hretry, hstop, ne_eq, not_true_eq_false, false_or,
    if_neg hkeep]

/-- So no number of passes covers the inventory. -/
theorem not_coveredIn {n : ScrubNode} (hb : 0 < n.scrubBudget)
    (hlive : n.store.inner.inventory ≠ []) (hfit : ¬ n.RetriesFit) (N : Nat) :
    ¬ n.CoveredIn H N := by
  obtain ⟨a, spent, hspent, hretry⟩ := exists_withholding (H := H)
    (n := { n with scrubCursor := none }) hb hfit
  have hpass := scrubPass_starved (n := { n with scrubCursor := none, pendingCursor := none }) hb
    (List.length_pos_iff.mpr hlive) hspent hretry
  have hall : ∀ N, ∀ p ∈ { n with scrubCursor := none, pendingCursor := none }.passes H
      (List.replicate N a), p.report.restored = 0 ∧ p.visited = [] := by
    intro N
    induction N with
    | zero => simp [passes]
    | succ N ih =>
      rw [List.replicate_succ, passes, hpass]
      refine List.forall_mem_cons.mpr ⟨⟨countQuarantine_restored _ _, rfl⟩, ih⟩
  intro hcover
  obtain ⟨b, hb'⟩ := List.exists_mem_of_ne_nil _ hlive
  obtain ⟨p, hp, v, hv, -⟩ := hcover none none (List.replicate N a) List.length_replicate
    (fun p hp => (hall N p hp).1) b.digest (LocalCas.has_iff_inventory.mpr ⟨b, hb', rfl⟩)
  rw [(hall N p hp).2] at hv
  cases hv

/-- Over an inventory that does not change, some number of consecutive passes verifies every live blob
whatever the peers answer, exactly if the retries cannot spend the budget; one more pass than there
are blobs is then enough. -/
theorem scrub_covers_inventory_iff (H : HashFn) (n : ScrubNode) (hb : 0 < n.scrubBudget)
    (hlive : n.store.inner.inventory ≠ []) (hok : n.Healthy H) :
    ((∃ N, n.CoveredIn H N) ↔ n.RetriesFit) ∧
      (n.RetriesFit → n.CoveredIn H (n.store.inner.inventory.length + 1)) := by
  refine ⟨⟨?_, fun hfit => ⟨_, coveredIn_of_retriesFit hb hok hfit⟩⟩,
    coveredIn_of_retriesFit hb hok⟩
  rintro ⟨N, hcover⟩
  by_contra hfit
  exact not_coveredIn hb hlive hfit N hcover

end ScrubNode

/-! ## One blob, one digest pending -/

/-- A `write_only` node of ten bytes that holds one blob of three bytes and, in quarantine, four bytes
that used to be another. -/
def pendingNode (budget : Nat) (h : budget ≤ u64Max) : ScrubNode where
  store :=
    let live : Bytes := [1, 2, 3]
    let lost : QuarantineId := ⟨Digest.compute HashFn.short [4, 5], 0⟩
    .new ⟨.disk, Finmap.singleton (Digest.compute HashFn.short live) live,
        Finmap.singleton lost [6, 6, 6, 6], false⟩
      (.writeOnly 10) 0 [⟨Digest.compute HashFn.short live, 3⟩] [⟨lost, lost.digest, 4⟩]
  mirror := none
  scrubBudget := budget
  budget_le := h
  scrubCursor := none
  pendingCursor := none

theorem pendingNode_healthy (budget : Nat) (h : budget ≤ u64Max) :
    (pendingNode budget h).Healthy HashFn.short := by
  intro d hd
  obtain ⟨bytes, hbytes⟩ := LocalCas.has_iff.mp hd
  have hkey : d = Digest.compute HashFn.short [1, 2, 3] :=
    (Finmap.mem_singleton _ _ _).mp (Finmap.mem_of_lookup_eq_some hbytes)
  rw [hkey]
  show (⟨.disk, Finmap.singleton (Digest.compute HashFn.short [1, 2, 3]) [1, 2, 3],
    Finmap.singleton ⟨Digest.compute HashFn.short [4, 5], 0⟩ [6, 6, 6, 6], false⟩ : LocalCas).verify
      HashFn.short (Digest.compute HashFn.short [1, 2, 3]) = .ok true
  decide +kernel

theorem pendingNode_inventory (budget : Nat) (h : budget ≤ u64Max) :
    (pendingNode budget h).store.inner.inventory =
      [⟨Digest.compute HashFn.short [1, 2, 3], 3⟩] := by
  show (LocalCas.inventory ⟨.disk, Finmap.singleton (Digest.compute HashFn.short [1, 2, 3]) [1, 2, 3],
    Finmap.singleton ⟨Digest.compute HashFn.short [4, 5], 0⟩ [6, 6, 6, 6], false⟩) = _
  decide +kernel

theorem pendingNode_pending (budget : Nat) (h : budget ≤ u64Max) :
    (pendingNode budget h).store.inner.pendingDigests = [Digest.compute HashFn.short [4, 5]] := by
  show (LocalCas.pendingDigests ⟨.disk,
    Finmap.singleton (Digest.compute HashFn.short [1, 2, 3]) [1, 2, 3],
    Finmap.singleton ⟨Digest.compute HashFn.short [4, 5], 0⟩ [6, 6, 6, 6], false⟩) = _
  decide +kernel

/-- Three bytes are free, so the retries fit a budget above three. -/
theorem pendingNode_retriesFit (budget : Nat) (h : budget ≤ u64Max) :
    (pendingNode budget h).RetriesFit ↔ 3 < budget := by
  have hadmits : ∀ size, (pendingNode budget h).store.admits size = true ↔ size ≤ 3 := by
    intro size
    show decide (saturatingAdd 7 size ≤ 10) = true ↔ size ≤ 3
    rw [decide_eq_true_iff]
    unfold saturatingAdd u64Max
    omega
  show (∀ size, (pendingNode budget h).store.admits size = true →
    (pendingNode budget h).store.inner.pendingDigests.length * size < budget) ↔ 3 < budget
  simp only [hadmits, pendingNode_pending, List.length_singleton, Nat.one_mul]
  exact ⟨fun hall => hall 3 le_rfl, fun hb size hs => by omega⟩

/-- With a budget of three bytes, a peer that announces three bytes and never sends them keeps every
pass from verifying the live blob. -/
theorem scrub_inventory_starved :
    0 < (pendingNode 3 (by decide)).scrubBudget ∧
      (pendingNode 3 (by decide)).store.inner.inventory ≠ [] ∧
      (pendingNode 3 (by decide)).Healthy HashFn.short ∧
      ¬ ∃ N, (pendingNode 3 (by decide)).CoveredIn HashFn.short N := by
  have hlive : (pendingNode 3 (by decide)).store.inner.inventory ≠ [] := by
    rw [pendingNode_inventory]
    exact List.cons_ne_nil _ _
  refine ⟨by decide, hlive, pendingNode_healthy 3 _, ?_⟩
  rintro ⟨N, hcover⟩
  refine ScrubNode.not_coveredIn (by decide) hlive ?_ N hcover
  rw [pendingNode_retriesFit]
  decide

/-- With a budget of four, two passes are enough. -/
theorem scrub_covers_inventory_small :
    (pendingNode 4 (by decide)).CoveredIn HashFn.short 2 := by
  have h := (ScrubNode.scrub_covers_inventory_iff HashFn.short (pendingNode 4 (by decide)) (by decide)
    (by rw [pendingNode_inventory]; exact List.cons_ne_nil _ _) (pendingNode_healthy 4 _)).2
    ((pendingNode_retriesFit 4 _).mpr (by decide))
  rwa [pendingNode_inventory] at h

end NessieStore
