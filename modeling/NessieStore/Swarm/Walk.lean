import NessieStore.Swarm.Coverage

/-!
# How the scrub walks the inventory

While the inventory is healthy and does not change, and nothing waits to be restored, the passes of
`CasNode::scrub_pass` (`nessie-store`, `cas_node/scrub.rs`) walk it in rounds: each pass verifies a
piece of it, from where the pass before ended, and the piece is as long as the budget asks for, but
for the last of a round (`ScrubWalk`).

The budget bounds a pass whatever the node holds, and whatever is pending: what the fetched restores
were announced with and what the verified blobs measure stays below it until the last item. The sums
saturate in the source; below a budget that is a `u64` they do not (`Paid.sum_lt`).
-/

set_option autoImplicit false

namespace NessieStore

open Lib

/-! ## Spending a budget -/

/-- Every item was taken while less than the budget was spent. -/
def Paid (budget : Nat) : Nat → List Nat → Prop
  | _, [] => True
  | spent, n :: ns => spent < budget ∧ Paid budget (saturatingAdd spent n) ns

namespace Paid

variable {budget spent : Nat}

theorem append {ns ms : List Nat} (h : Paid budget spent ns)
    (h' : Paid budget (ns.foldl saturatingAdd spent) ms) : Paid budget spent (ns ++ ms) := by
  induction ns generalizing spent with
  | nil => exact h'
  | cons n ns ih => exact ⟨h.1, ih h.2 h'⟩

/-- Without its last item, what was taken is below the budget. -/
theorem sum_lt (hbudget : budget ≤ u64Max) {ns : List Nat} (hne : ns ≠ [])
    (h : Paid budget spent ns) : spent + ns.dropLast.sum < budget := by
  induction ns generalizing spent with
  | nil => exact absurd rfl hne
  | cons n ns ih =>
    cases ns with
    | nil => exact h.1
    | cons m ns =>
      have hrest := ih (List.cons_ne_nil m ns) h.2
      have hexact : saturatingAdd spent n = spent + n := by
        have hlt := h.2.1
        unfold saturatingAdd at hlt ⊢
        omega
      rw [hexact] at hrest
      rw [List.dropLast_cons_cons, List.sum_cons, ← Nat.add_assoc]
      exact hrest

end Paid

theorem foldl_saturatingAdd_le (spent : Nat) (ns : List Nat) :
    ns.foldl saturatingAdd spent ≤ spent + ns.sum := by
  induction ns generalizing spent with
  | nil => exact le_rfl
  | cons n ns ih =>
    rw [List.foldl_cons, List.sum_cons]
    have hrest := ih (saturatingAdd spent n)
    have := saturatingAdd_le spent n
    omega

namespace CasStore

variable (H : HashFn) (a : PeerAnswers)

/-- The sizes announced for the digests that the loop of `retry_pending` fetches. -/
def fetchedFrom (budget : Nat) : List Digest → Nat → CasStore → List Nat
  | [], _, _ => []
  | d :: ds, spent, s =>
    if budget ≤ spent then []
    else
      match s.roomFor a d with
      | .noPeer | .noCapacity => fetchedFrom budget ds spent s
      | .fits n => n :: fetchedFrom budget ds (saturatingAdd spent n) (s.restore H a d).2

variable {H a}

/-- The retries pay for what they fetch, and for nothing else. -/
theorem retryFrom_paid (budget : Nat) (ds : List Digest) (spent : Nat) (r : ScrubReport)
    (s : CasStore) :
    Paid budget spent (fetchedFrom H a budget ds spent s) ∧
      (retryFrom H a budget ds spent (r, s)).2.1 =
        (fetchedFrom H a budget ds spent s).foldl saturatingAdd spent := by
  induction ds generalizing spent r s with
  | nil => exact ⟨trivial, rfl⟩
  | cons d ds ih =>
    rw [fetchedFrom, retryFrom]
    by_cases hle : budget ≤ spent
    · rw [if_pos hle, if_pos hle]
      exact ⟨trivial, rfl⟩
    · rw [if_neg hle, if_neg hle]
      cases hroom : s.roomFor a d with
      | noPeer => exact ih spent r s
      | noCapacity => exact ih spent _ s
      | fits n =>
        have hrest := fun r' => ih (saturatingAdd spent n) r' (s.restore H a d).2
        refine ⟨⟨Nat.not_le.mp hle, (hrest r).1⟩, ?_⟩
        dsimp only
        rw [List.foldl_cons]
        cases hout : s.restore H a d with
        | mk out t =>
          rw [hout] at hrest
          cases out with
          | ok _ => exact (hrest _).2
          | error e => exact (hrest r).2

/-- The scan takes blobs from the front while it can pay for them, and stops before the end only
when the budget is spent. -/
theorem scanFrom_paid {budget : Nat} (hbudget : 0 < budget) (mirror : Option Nat)
    (bs : List LocalBlob) (spent : Nat) (started : Bool) (x : ScrubReport × CasStore) :
    ∃ back,
      (scanFrom H a mirror budget bs spent started x).1.map Prod.fst ++ back = bs ∧
      Paid budget spent ((scanFrom H a mirror budget bs spent started x).1.map fun v => v.1.sizeBytes) ∧
      (back = [] ∨ budget ≤ ((scanFrom H a mirror budget bs spent started x).1.map
        fun v => v.1.sizeBytes).foldl saturatingAdd spent) := by
  induction bs generalizing spent started x with
  | nil => exact ⟨[], rfl, trivial, .inl rfl⟩
  | cons b bs ih =>
    rw [scanFrom]
    by_cases hstop : budget ≤ spent ∧ (started = true ∨ 0 < spent)
    · rw [if_pos hstop]
      exact ⟨b :: bs, rfl, trivial, .inr hstop.1⟩
    · rw [if_neg hstop]
      have hlt : spent < budget := by
        by_contra hge
        exact hstop ⟨Nat.not_lt.mp hge, .inr (by omega)⟩
      obtain ⟨back, hsplit, hpaid, hend⟩ :=
        ih (saturatingAdd spent b.sizeBytes) true (scrubOne H a mirror b.digest x)
      refine ⟨back, ?_, ⟨hlt, hpaid⟩, hend⟩
      rw [List.map_cons, List.cons_append, hsplit]

theorem repair_scanned (mirror : Option Nat) (d : Digest) (r : ScrubReport) :
    (repair a mirror d r).scanned = r.scanned := by
  unfold repair
  repeat' split
  all_goals rfl

theorem takeOutCorrupt_scanned (s : CasStore) (d : Digest) (r : ScrubReport) :
    (s.takeOutCorrupt H a d r).2.1.scanned = r.scanned := by
  unfold takeOutCorrupt reclaimIfStillCorrupt
  repeat' split
  all_goals rfl

/-- The verdicts recorded are those that the report counts. -/
theorem scrubOne_scanned (mirror : Option Nat) (d : Digest) (x : ScrubReport × CasStore) :
    (scrubOne H a mirror d x).1.scanned =
      x.1.scanned + if (x.2.inner.verify H d).isOk then 1 else 0 := by
  obtain ⟨r, s⟩ := x
  simp only [scrubOne]
  split
  · next hv => rw [repair_scanned, hv]; rfl
  · next hv =>
    have hout := takeOutCorrupt_scanned (H := H) (a := a) s d
      { r with scanned := r.scanned + 1, corrupt := r.corrupt + 1 }
    rw [hv]
    split
    · next heq => rw [repair_scanned]; rw [heq] at hout; exact hout
    · next heq => rw [heq] at hout; exact hout
  · next hv => rw [hv]; rfl

theorem scanFrom_scanned (mirror : Option Nat) (budget : Nat) (bs : List LocalBlob)
    (spent : Nat) (started : Bool) (x : ScrubReport × CasStore) :
    (scanFrom H a mirror budget bs spent started x).2.1.scanned = x.1.scanned +
      (scanFrom H a mirror budget bs spent started x).1.countP fun v => v.2.isOk := by
  induction bs generalizing spent started x with
  | nil => rfl
  | cons b bs ih =>
    rw [scanFrom]
    split
    · rfl
    · simp only [ih, scrubOne_scanned, List.countP_cons]
      omega

theorem retryFrom_scanned (budget : Nat) (ds : List Digest) (spent : Nat)
    (x : ScrubReport × CasStore) :
    (retryFrom H a budget ds spent x).2.2.1.scanned = x.1.scanned := by
  induction ds generalizing spent x with
  | nil => rfl
  | cons d ds ih =>
    rw [retryFrom]
    repeat' split
    · rfl
    all_goals exact ih _ _

/-- A scan of healthy blobs restores nothing. -/
theorem scanFrom_healthy_restored (mirror : Option Nat) (budget : Nat) {s : CasStore}
    (bs : List LocalBlob) (hok : ∀ b ∈ bs, s.inner.verify H b.digest = .ok true) (spent : Nat)
    (started : Bool) (r : ScrubReport) :
    (scanFrom H a mirror budget bs spent started (r, s)).2.1.restored = r.restored := by
  induction bs generalizing spent started r with
  | nil => rfl
  | cons b bs ih =>
    rw [scanFrom]
    by_cases hstop : budget ≤ spent ∧ (started = true ∨ 0 < spent)
    · rw [if_pos hstop]
    · rw [if_neg hstop]
      have hone : scrubOne H a mirror b.digest (r, s) =
          (repair a mirror b.digest { r with scanned := r.scanned + 1 }, s) := by
        simp only [scrubOne, hok b List.mem_cons_self]
      dsimp only
      rw [hone, ih (fun c hc => hok c (List.mem_cons_of_mem _ hc)), repair_restored]

end CasStore

namespace ScrubNode

variable {H : HashFn} {a : PeerAnswers}

/-- The sizes announced for the restores that a pass fetches before its scan. -/
def fetched (H : HashFn) (a : PeerAnswers) (n : ScrubNode) : List Nat :=
  match n.store.mode with
  | .lru .. => []
  | .writeOnly _ =>
    CasStore.fetchedFrom H a n.scrubBudget
      (n.store.inner.pendingDigests.drop (start id n.store.inner.pendingDigests n.pendingCursor)) 0
      n.store

theorem retryPending_paid (n : ScrubNode) :
    Paid n.scrubBudget 0 (n.fetched H a) ∧
      (n.retryPending H a).1 = (n.fetched H a).foldl saturatingAdd 0 ∧
        (n.retryPending H a).2.2.scrubBudget = n.scrubBudget := by
  unfold fetched retryPending
  cases n.store.mode with
  | lru budget grace => exact ⟨trivial, rfl, rfl⟩
  | writeOnly capacity =>
    obtain ⟨hpaid, hspent⟩ := CasStore.retryFrom_paid (H := H) (a := a) n.scrubBudget
      (n.store.inner.pendingDigests.drop
        (start id n.store.inner.pendingDigests n.pendingCursor)) 0 {} n.store
    exact ⟨hpaid, hspent, rfl⟩

/-- What a pass fetches and verifies is paid for, whatever the node holds. -/
theorem scrubPass_paid {n : ScrubNode} (hb : 0 < n.scrubBudget) :
    Paid n.scrubBudget 0
      (n.fetched H a ++ (n.scrubPass H a).visited.map fun v => v.1.sizeBytes) := by
  obtain ⟨hpaid, hspent, hbudget⟩ := retryPending_paid (H := H) (a := a) n
  refine hpaid.append ?_
  unfold scrubPass
  rw [if_neg (Nat.ne_of_gt hb), ← hspent, ← hbudget]
  obtain ⟨back, -, hscan, -⟩ := CasStore.scanFrom_paid (H := H) (a := a) (hbudget ▸ hb)
    (n.retryPending H a).2.2.mirror
    ((n.retryPending H a).2.2.store.inner.inventory.drop
      (start LocalBlob.digest (n.retryPending H a).2.2.store.inner.inventory
        (n.retryPending H a).2.2.scrubCursor))
    (n.retryPending H a).1 false ((n.retryPending H a).2.1, (n.retryPending H a).2.2.store)
  exact hscan

/-- The report counts the verdicts that the pass has reached. -/
theorem scrubPass_scanned (n : ScrubNode) :
    (n.scrubPass H a).report.scanned = (n.scrubPass H a).visited.countP fun v => v.2.isOk := by
  have hretry : (n.retryPending H a).2.1.scanned = 0 := by
    unfold retryPending
    split
    · rfl
    · exact CasStore.retryFrom_scanned _ _ _ _
  unfold scrubPass
  split
  · rfl
  · have hcount : ∀ s r, (countQuarantine s r).scanned = r.scanned := fun s r => by
      unfold countQuarantine
      split <;> rfl
    dsimp only
    rw [hcount, CasStore.scanFrom_scanned, hretry, Nat.zero_add]

/-! ## A pass with nothing pending -/

/-- No restore is pending: an `lru` node has none. -/
def NoPending (n : ScrubNode) : Prop :=
  match n.store.mode with
  | .lru .. => True
  | .writeOnly _ => n.store.inner.pendingDigests = []

theorem Steady.noPending {n n' : ScrubNode} (h : Steady n n') (hnone : n.NoPending) :
    n'.NoPending := by
  unfold NoPending at hnone ⊢
  rw [h.store.mode, h.store.inner]
  exact hnone

/-- There is nothing to retry. -/
theorem retryPending_of_noPending {n : ScrubNode} (hnone : n.NoPending) :
    ∃ cursor, n.retryPending H a = (0, {}, { n with pendingCursor := cursor }) := by
  unfold NoPending at hnone
  unfold retryPending
  cases hm : n.store.mode with
  | lru budget grace => exact ⟨n.pendingCursor, rfl⟩
  | writeOnly capacity =>
    rw [hm] at hnone
    dsimp only at hnone ⊢
    rw [hnone, List.drop_nil]
    exact ⟨_, rfl⟩

/-- The scan of such a pass is that of the node itself. -/
theorem scrubPass_of_noPending {n : ScrubNode} (hb : 0 < n.scrubBudget) (hnone : n.NoPending) :
    (n.scrubPass H a).visited =
        (CasStore.scanFrom H a n.mirror n.scrubBudget (n.store.inner.inventory.drop n.pos) 0 false
          ({}, n.store)).1 ∧
      (n.scrubPass H a).report.restored =
        (CasStore.scanFrom H a n.mirror n.scrubBudget (n.store.inner.inventory.drop n.pos) 0 false
          ({}, n.store)).2.1.restored := by
  obtain ⟨cursor, hretry⟩ := retryPending_of_noPending (H := H) (a := a) hnone
  unfold scrubPass
  rw [if_neg (Nat.ne_of_gt hb), hretry]
  dsimp only
  rw [countQuarantine_restored]
  exact ⟨rfl, rfl⟩

/-- The walk is at a blob: the cursor is not past the end of what there is. -/
def OnTrack (n : ScrubNode) : Prop :=
  n.store.inner.inventory ≠ [] → n.pos < n.store.inner.inventory.length

/-- What a pass verifies: `k` blobs from where it resumes, paid for, and fewer than the budget asks
for only at the end. -/
structure Piece (H : HashFn) (a : PeerAnswers) (n : ScrubNode) (k : Nat) : Prop where
  steady : Steady n (n.scrubPass H a).node
  within : n.pos + k ≤ n.store.inner.inventory.length
  visited : (n.scrubPass H a).visited =
    ((n.store.inner.inventory.drop n.pos).take k).map (fun b => (b, .ok true))
  some : n.store.inner.inventory ≠ [] → 0 < k
  pos_next : (n.scrubPass H a).node.pos =
    if n.pos + k < n.store.inner.inventory.length then n.pos + k else 0
  paid : Paid n.scrubBudget 0
    (((n.store.inner.inventory.drop n.pos).take k).map LocalBlob.sizeBytes)
  early : (((n.store.inner.inventory.drop n.pos).take k).map LocalBlob.sizeBytes).sum <
    n.scrubBudget → n.pos + k = n.store.inner.inventory.length

theorem scrubPass_piece {n : ScrubNode} (hb : 0 < n.scrubBudget) (hok : n.Healthy H)
    (hnone : n.NoPending) (htrack : n.OnTrack) : ∃ k, Piece H a n k := by
  obtain ⟨hvisited, hrestored⟩ := scrubPass_of_noPending (H := H) (a := a) hb hnone
  have hverify : ∀ b ∈ n.store.inner.inventory.drop n.pos,
      n.store.inner.verify H b.digest = .ok true :=
    fun b hmem => verify_inventory hok (List.mem_of_mem_drop hmem)
  have hquiet : (n.scrubPass H a).report.restored = 0 := by
    rw [hrestored, CasStore.scanFrom_healthy_restored _ _ _ hverify]
  obtain ⟨k, hadv⟩ := scrubPass_advances hb hok hquiet
  obtain ⟨cursor, hretry⟩ := retryPending_of_noPending (H := H) (a := a) hnone
  obtain ⟨back, hsplit, hpaid, hend⟩ := CasStore.scanFrom_paid (H := H) (a := a) hb n.mirror
    (n.store.inner.inventory.drop n.pos) 0 false ({}, n.store)
  have hsizes : (((n.store.inner.inventory.drop n.pos).take k).map
      (fun b => (b, (Except.ok true : Except BackendError Bool)))).map (fun v => v.1.sizeBytes) =
      ((n.store.inner.inventory.drop n.pos).take k).map LocalBlob.sizeBytes := by
    rw [List.map_map]
    rfl
  have hfirsts : (((n.store.inner.inventory.drop n.pos).take k).map
      (fun b => (b, (Except.ok true : Except BackendError Bool)))).map Prod.fst =
      (n.store.inner.inventory.drop n.pos).take k := by
    rw [List.map_map]
    exact List.map_id _
  rw [← hvisited, hadv.visited] at hsplit hpaid hend
  rw [hsizes] at hpaid hend
  rw [hfirsts] at hsplit
  have hpos : n.store.inner.inventory ≠ [] → 0 < k := by
    intro hne
    have hiff := hadv.none_iff (htrack hne)
    rw [hretry] at hiff
    dsimp only at hiff
    omega
  refine ⟨k, hadv.steady, hadv.within, hadv.visited, hpos, ?_, hpaid, ?_⟩
  · rw [hadv.pos_next]
    by_cases hk : 0 < k
    · rw [if_pos hk]
    · have hempty : n.store.inner.inventory = [] := by
        by_contra hne
        exact hk (hpos hne)
      rw [if_neg hk, hempty]
      rfl
  · intro hlow
    have hfold := foldl_saturatingAdd_le 0
      (((n.store.inner.inventory.drop n.pos).take k).map LocalBlob.sizeBytes)
    have hback : back = [] := hend.resolve_right (by omega)
    rw [hback, List.append_nil] at hsplit
    have hlen := congrArg List.length hsplit
    rw [List.length_take, List.length_drop] at hlen
    have := hadv.within
    omega

theorem Piece.onTrack {n : ScrubNode} {k : Nat} (h : Piece H a n k) :
    (n.scrubPass H a).node.OnTrack := by
  intro hne
  have hpos := List.length_pos_iff.mpr hne
  rw [h.pos_next]
  rw [h.steady.store.inner] at hpos ⊢
  split
  · next hlt => exact hlt
  · exact hpos

/-! ## Passes -/

/-- The blobs that each pass verified. -/
def runs (H : HashFn) (n : ScrubNode) (as : List PeerAnswers) : List (List LocalBlob) :=
  (n.passes H as).map fun p => p.visited.map Prod.fst

end ScrubNode

/-- Runs of blobs that walk an inventory exactly. -/
structure ScrubWalk (blobs : List LocalBlob) (budget : Nat) (runs : List (List LocalBlob)) : Prop where
  /-- In the order of the digests' texts, which are distinct. -/
  ordered : blobs.Pairwise fun a b => nameKey a.digest.toText < nameKey b.digest.toText
  /-- Each run is contiguous and begins behind the one before, or at the beginning if that one came to
  the end. -/
  rounds : Rounds blobs 0 runs
  nonempty : blobs ≠ [] → ∀ r ∈ runs, r ≠ []
  within : ∀ r ∈ runs, (r.dropLast.map LocalBlob.sizeBytes).sum < budget
  /-- Only at the end is a run shorter than the budget asks for. -/
  early : ∀ r ∈ runs, (r.map LocalBlob.sizeBytes).sum < budget → r <:+ blobs
  /-- Between two ends each blob is verified once. -/
  lap : ∀ before pieces last after, runs = before ++ (pieces ++ last :: after) →
    (before = [] ∨ ∃ front run, before = front ++ [run] ∧ run <:+ blobs) →
    (∀ r ∈ pieces, ¬ r <:+ blobs) → last <:+ blobs → (pieces ++ [last]).flatten = blobs

namespace ScrubNode

variable {H : HashFn}

/-- What the runs of a walk are, one by one; the induction is on the passes. -/
theorem passes_pieces {n : ScrubNode} (hb : 0 < n.scrubBudget) (hok : n.Healthy H)
    (hnone : n.NoPending) (htrack : n.OnTrack) (as : List PeerAnswers) :
    Rounds n.store.inner.inventory n.pos (n.runs H as) ∧
      (∀ p ∈ n.passes H as, ∀ v ∈ p.visited, v.2 = .ok true) ∧
      ∀ r ∈ n.runs H as, (n.store.inner.inventory ≠ [] → r ≠ []) ∧
        Paid n.scrubBudget 0 (r.map LocalBlob.sizeBytes) ∧
        ((r.map LocalBlob.sizeBytes).sum < n.scrubBudget → r <:+ n.store.inner.inventory) := by
  induction as generalizing n with
  | nil => exact ⟨.nil _, by simp [passes], by simp [runs, passes]⟩
  | cons a as ih =>
    obtain ⟨k, hpiece⟩ := scrubPass_piece (H := H) (a := a) hb hok hnone htrack
    have hinv : (n.scrubPass H a).node.store.inner = n.store.inner := hpiece.steady.store.inner
    obtain ⟨hrounds, hverdicts, hruns⟩ := ih (hpiece.steady.budget ▸ hb)
      (hpiece.steady.healthy hok) (hpiece.steady.noPending hnone) hpiece.onTrack
    rw [hinv, hpiece.pos_next] at hrounds
    rw [hinv, hpiece.steady.budget] at hruns
    have hrun : n.runs H (a :: as) = (n.store.inner.inventory.drop n.pos).take k ::
        (n.scrubPass H a).node.runs H as := by
      rw [runs, passes, List.map_cons, hpiece.visited, List.map_map]
      congr 1
      exact List.map_id _
    rw [hrun]
    refine ⟨.cons hpiece.within hrounds, ?_, ?_⟩
    · rw [passes]
      refine List.forall_mem_cons.mpr ⟨?_, hverdicts⟩
      intro v hv
      rw [hpiece.visited] at hv
      obtain ⟨b, -, rfl⟩ := List.mem_map.mp hv
      rfl
    · refine List.forall_mem_cons.mpr ⟨⟨?_, hpiece.paid, ?_⟩, hruns⟩
      · intro hne
        have hk := hpiece.some hne
        have hpos := htrack hne
        rw [Ne, List.take_eq_nil_iff, List.drop_eq_nil_iff]
        omega
      · intro hlow
        have hend := hpiece.early hlow
        rw [List.take_of_length_le (by rw [List.length_drop]; omega)]
        exact List.drop_suffix _ _

/-- Over healthy blobs and with nothing pending, the passes after a restart walk the inventory
exactly; and with whatever a node holds and has pending, a pass stays below its budget until the last
blob that it fetches or verifies. -/
theorem scrub_walks_inventory (H : HashFn) (n : ScrubNode) (hb : 0 < n.scrubBudget) :
    (n.scrubCursor = none → n.Healthy H → n.NoPending → ∀ as : List PeerAnswers,
      (∀ p ∈ n.passes H as, ∀ v ∈ p.visited, v.2 = .ok true) ∧
        ScrubWalk n.store.inner.inventory n.scrubBudget (n.runs H as)) ∧
    ∀ a : PeerAnswers,
      (n.fetched H a ++ (n.scrubPass H a).visited.map fun v => v.1.sizeBytes).dropLast.sum <
        n.scrubBudget := by
  have hsum : ∀ ns, Paid n.scrubBudget 0 ns → ns.dropLast.sum < n.scrubBudget := by
    intro ns hpaid
    by_cases hne : ns = []
    · rw [hne]
      exact hb
    · have hlt := hpaid.sum_lt n.budget_le hne
      rwa [Nat.zero_add] at hlt
  refine ⟨?_, fun a => hsum _ (scrubPass_paid hb)⟩
  intro hcursor hok hnone as
  have hpos : n.pos = 0 := by
    rw [pos, hcursor]
    rfl
  have htrack : n.OnTrack := by
    intro hne
    rw [hpos]
    exact List.length_pos_iff.mpr hne
  obtain ⟨hrounds, hverdicts, hruns⟩ := passes_pieces hb hok hnone htrack as
  rw [hpos] at hrounds
  have hordered := LocalCas.inventory_ascending n.store.inner
  have hnodup : n.store.inner.inventory.Nodup := by
    refine hordered.imp ?_
    rintro x y hlt rfl
    exact lt_irrefl _ hlt
  have hnonempty : n.store.inner.inventory ≠ [] → ∀ r ∈ n.runs H as, r ≠ [] :=
    fun hne r hr => (hruns r hr).1 hne
  refine ⟨hverdicts, hordered, hrounds, hnonempty, ?_, fun r hr => (hruns r hr).2.2, ?_⟩
  · intro r hr
    have hlt := hsum _ (hruns r hr).2.1
    rwa [← List.map_dropLast] at hlt
  · intro before pieces last after hsplit hbegin hmid hlast
    rw [hsplit] at hrounds hnonempty
    exact hrounds.lap hnodup hnonempty hbegin hmid hlast

end ScrubNode

/-! ## Three blobs in two passes -/

/-- A node with an empty blob, one of one byte and one of five, and a budget of one byte. -/
def walkedNode : ScrubNode where
  store :=
    let blobs : Map Digest Bytes := Finmap.insert (.compute .short []) []
      (Finmap.insert (.compute .short [1]) [1]
        (Finmap.singleton (.compute .short [2, 2, 2, 2, 2]) [2, 2, 2, 2, 2]))
    .new ⟨.disk, blobs, ∅, false⟩ (.writeOnly 10) 0 [] []
  mirror := none
  scrubBudget := 1
  budget_le := by decide
  scrubCursor := none
  pendingCursor := none

theorem scrub_walks_inventory_three :
    (walkedNode.runs .short [ScrubNode.withholding [] 0, ScrubNode.withholding [] 0]).map
      List.length = [2, 1] ∧
      ScrubWalk walkedNode.store.inner.inventory 1
        (walkedNode.runs .short [ScrubNode.withholding [] 0, ScrubNode.withholding [] 0]) := by
  have hok : walkedNode.Healthy .short := by
    intro d hd
    obtain ⟨b, hb, rfl⟩ := LocalCas.has_iff_inventory.mp hd
    have hall : ∀ b ∈ walkedNode.store.inner.inventory,
        walkedNode.store.inner.verify .short b.digest = .ok true := by decide +kernel
    exact hall b hb
  have hnone : walkedNode.NoPending := by
    show walkedNode.store.inner.pendingDigests = []
    decide +kernel
  have hwalk := (ScrubNode.scrub_walks_inventory .short walkedNode (by decide)).1 rfl hok hnone
    [ScrubNode.withholding [] 0, ScrubNode.withholding [] 0]
  exact ⟨by decide +kernel, hwalk.2⟩

end NessieStore
