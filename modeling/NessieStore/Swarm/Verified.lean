import NessieStore.Swarm.Push

/-!
# How many of the acknowledged copies verify

`replication_factor` is documented as the number of verified copies of a write. `push_counting` counts
a peer on its answer to `HEAD`, which looks up a length and reads no bytes, so a peer whose file has
gone bad is counted like any other, and is not sent a good copy either.

The theorem says when the promise is kept all the same. Of the nodes that the loop asks, some are
counted on a copy that does not verify (`deceived`), and some nodes end up with one that does
without being counted (`spare`): an acknowledgement has its `R` verified copies exactly when the
second make up for the first, and for this node's own copy should that be bad. Both numbers are read
off the disks before the call.
-/

set_option autoImplicit false

namespace NessieStore

open Lib

/-- A client's call, with what it brings. -/
inductive MirrorCall
  | putKeyed (body : Bytes) (evs : List WriteEvent)
  | ensureReplicated

/-- The node ends with a copy that verifies, if it is asked: it has one, or is sent one and takes
it. -/
def Neighbour.endsVerified (H : HashFn) (d : Digest) (body : Option Bytes) (p : Neighbour) : Bool :=
  p.store.inner.verified H d || p.durable && !p.confirms d && p.takes H d body

theorem Neighbour.endsVerified_none (H : HashFn) (d : Digest) :
    Neighbour.endsVerified H d none = fun p => p.store.inner.verified H d := by
  funext p
  simp [endsVerified, takes]

namespace MirrorNode

variable (H : HashFn) (d : Digest) (n : MirrorNode)

def call : MirrorCall → Option (Except BackendError Unit × MirrorNode)
  | .putKeyed body evs => n.putKeyed H d body evs
  | .ensureReplicated => some (n.ensureReplicated H d)

/-- What the call would send to a peer. -/
def body : MirrorCall → Option Bytes
  | .putKeyed body _ => some body
  | .ensureReplicated => (n.store.inner.get H d).toOption

/-- This node's own copy verifies when the push begins: `put_keyed` has just written it. -/
def ownVerified : MirrorCall → Bool
  | .putKeyed .. => true
  | .ensureReplicated => n.store.inner.verified H d

/-- The other nodes, cut behind the last that the loop asks. -/
def walk (op : MirrorCall) : List Neighbour × List Neighbour :=
  reach (Neighbour.counts H d (n.body H d op)) (n.mirror.getD 0) n.others

/-- The push begins: the local write succeeds, or the blob is there. -/
def starts : MirrorCall → Bool
  | .putKeyed body evs => (n.store.putKeyed H d body evs).any fun r => r.1.isOk
  | .ensureReplicated => n.mirror.isNone || n.store.inner.has d

/-- The push comes to its end: the blob can be read, or never has to be. -/
def goesThrough (op : MirrorCall) : Bool :=
  n.starts H d op &&
    ((n.body H d op).isSome || !(n.walk H d op).1.any fun p => p.durable && !p.confirms d)

/-- Enough peers are there to be counted. -/
def enough (op : MirrorCall) : Bool :=
  n.mirror.getD 0 ≤ (n.walk H d op).1.countP (Neighbour.counts H d (n.body H d op))

/-- Nodes counted on a copy that does not verify. -/
def deceived (op : MirrorCall) : Nat :=
  (n.walk H d op).1.countP fun p => p.durable && p.confirms d && !p.store.inner.verified H d

/-- Nodes that end up with a copy that verifies and are not counted. -/
def spare (op : MirrorCall) : Nat :=
  (n.walk H d op).1.countP (fun p =>
      !p.counts H d (n.body H d op) && p.endsVerified H d (n.body H d op)) +
    (n.walk H d op).2.countP fun p => p.store.inner.verified H d

/-- Should the call go through, the copies that were not counted make up for those that do not
verify. -/
def Covered (op : MirrorCall) : Prop :=
  n.goesThrough H d op = true → n.enough H d op = true →
    n.deceived H d op + (if n.ownVerified H d op then 0 else 1) ≤ n.spare H d op

instance (op : MirrorCall) : Decidable (n.Covered H d op) :=
  inferInstanceAs (Decidable (_ → _ → _))

variable {H d n}

/-! ## The mirror -/

theorem runMirror_none (h : n.mirror = none) : n.runMirror H d = (.ok (), n) := by
  unfold runMirror
  rw [h]

/-- The push of a node that can read its copy. -/
theorem runMirror_read {body : Bytes} (hget : n.store.inner.get H d = .ok body) :
    let r := reach (Neighbour.counts H d (some body)) (n.mirror.getD 0) n.others
    ((n.runMirror H d).1 = .ok () ↔
        n.mirror.getD 0 ≤ r.1.countP (Neighbour.counts H d (some body))) ∧
      (n.runMirror H d).2 = { n with others := r.1.map (Neighbour.after H d body) ++ r.2 } := by
  obtain ⟨store, mirror, others⟩ := n
  unfold runMirror
  cases mirror with
  | none => simp
  | some required =>
    have hnone : (⟨0, 0⟩ : Pushed).held + required = required := Nat.zero_add required
    obtain ⟨sent, hpush⟩ := pushCounting_read hget hnone others
    simp only [hpush, Option.getD_some, Nat.zero_add, and_true]
    split
    · next hlt => simp [Nat.not_le.mpr hlt]
    · next hge => simp [Nat.le_of_not_lt hge]

/-- The push of a node that cannot. -/
theorem runMirror_unread {e : BackendError} (hget : n.store.inner.get H d = .error e) :
    let r := reach (Neighbour.counts H d none) (n.mirror.getD 0) n.others
    ((n.runMirror H d).1 = .ok () ↔
        r.1.any (fun p => p.durable && !p.confirms d) = false ∧
          n.mirror.getD 0 ≤ r.1.countP (Neighbour.counts H d none)) ∧
      (n.runMirror H d).2 = n := by
  obtain ⟨store, mirror, others⟩ := n
  unfold runMirror
  cases mirror with
  | none => simp
  | some required =>
    have hnone : (⟨0, 0⟩ : Pushed).held + required = required := Nat.zero_add required
    have hpush := pushCounting_unread hget hnone others
    simp only [hpush, Option.getD_some, Nat.zero_add, and_true]
    cases (reach (Neighbour.counts H d none) required others).1.any
        (fun p => p.durable && !p.confirms d) with
    | true => simp
    | false =>
      simp only [Bool.false_eq_true, if_false, true_and]
      split
      · next hlt => simp [Nat.not_le.mpr hlt]
      · next hge => simp [Nat.le_of_not_lt hge]

/-! ## The calls -/

/-- Each node that is asked is counted and ends verified, or is one of the exceptions. -/
theorem balance (body : Option Bytes) (l : List Neighbour) :
    l.countP (Neighbour.endsVerified H d body) +
        l.countP (fun p => p.durable && p.confirms d && !p.store.inner.verified H d) =
      l.countP (Neighbour.counts H d body) +
        l.countP (fun p => !p.counts H d body && p.endsVerified H d body) := by
  refine countP_add_congr fun p _ => ?_
  unfold Neighbour.endsVerified Neighbour.counts
  cases p.durable <;> cases p.confirms d <;> cases p.store.inner.verified H d <;>
    cases p.takes H d body <;> cases p.replied <;> cases p.heardAgain <;>
    cases p.store.writeOnly <;> rfl

theorem verified_of_get {c : LocalCas} (hdisk : c.kind = .disk) {b : Bytes}
    (h : c.get H d = .ok b) : c.verified H d = true := by
  obtain ⟨hb, hv⟩ := (LocalCas.get_disk hdisk).mp h
  simp [LocalCas.verified, hb, hv]

/-- Verified copies on the other nodes after a push of `body`. -/
theorem countP_after {body : Bytes} {l : List Neighbour}
    (hdisk : ∀ p ∈ l, p.store.inner.kind = .disk) :
    (l.map (Neighbour.after H d body)).countP (fun p => p.store.inner.verified H d) =
      l.countP (Neighbour.endsVerified H d (some body)) := by
  rw [List.countP_map]
  exact List.countP_congr fun p hp => by
    simp only [Function.comp_apply, Neighbour.verified_after H d p (hdisk p hp) body,
      Neighbour.endsVerified]

/-- A call is a push from the node as the local write left it, or fails before. -/
theorem call_cases {op : MirrorCall} {out : Except BackendError Unit} {n' : MirrorNode}
    (hdisk : n.store.inner.kind = .disk) (hcall : n.call H d op = some (out, n')) :
    (n.starts H d op = true ∧ ∃ t : CasStore, t.inner.kind = .disk ∧
      t.inner.verified H d = n.ownVerified H d op ∧
      (t.inner.get H d).toOption = n.body H d op ∧
      runMirror H d { n with store := t } = (out, n')) ∨
    n.starts H d op = false ∧ ∃ e, out = .error e := by
  cases op with
  | putKeyed body evs =>
    simp only [call, putKeyed, CasStore.putKeyedLocal, Option.map_map] at hcall
    obtain ⟨⟨res, t⟩, hput, hrest⟩ := Option.map_eq_some_iff.mp hcall
    have hspec := (CasStore.putKeyed_spec hput).2
    simp only [starts, hput]
    cases res with
    | error e =>
      cases hrest
      exact .inr ⟨rfl, e, rfl⟩
    | ok u =>
      obtain ⟨hv, -, hinner⟩ := CasStore.Wrote.landed hspec
      have hkind : t.inner.kind = .disk := by rw [hinner, LocalCas.land_kind, hdisk]
      have hget : t.inner.get H d = .ok body := (LocalCas.get_disk hkind).mpr
        ⟨by rw [hinner, LocalCas.lookup_land_disk hdisk, if_pos rfl], hv⟩
      exact .inl ⟨rfl, t.releaseGuard d, hkind, verified_of_get hkind hget,
        congrArg Except.toOption hget, hrest⟩
  | ensureReplicated =>
    simp only [call, ensureReplicated, Option.some.injEq] at hcall
    simp only [starts, Bool.or_eq_true, Bool.or_eq_false_iff]
    split at hcall
    · next hnone =>
      exact .inl ⟨.inl hnone, n.store, hdisk, rfl, rfl,
        (runMirror_none (Option.isNone_iff_eq_none.mp hnone)).trans hcall⟩
    · next hsome =>
      split at hcall
      · next hhas => exact .inl ⟨.inr hhas, n.store, hdisk, rfl, rfl, hcall⟩
      · next hhas =>
        cases hcall
        exact .inr ⟨⟨Bool.eq_false_iff.mpr hsome, Bool.eq_false_iff.mpr hhas⟩, _, rfl⟩

/-- When a call returns `Ok`. -/
theorem call_ok_iff {op : MirrorCall} {out : Except BackendError Unit} {n' : MirrorNode}
    (hdisk : n.store.inner.kind = .disk) (hcall : n.call H d op = some (out, n')) :
    out = .ok () ↔ n.goesThrough H d op = true ∧ n.enough H d op = true := by
  simp only [goesThrough, enough, decide_eq_true_eq]
  unfold walk
  rcases call_cases hdisk hcall with ⟨hstarts, t, -, -, hbody, hpush⟩ | ⟨hstarts, e, rfl⟩
  · rw [← hbody, hstarts]
    cases hget : t.inner.get H d with
    | ok b =>
      have h := (runMirror_read (n := { n with store := t }) hget).1
      rw [hpush] at h
      simpa [Except.toOption] using h
    | error e =>
      have h := (runMirror_unread (n := { n with store := t }) hget).1
      rw [hpush] at h
      simpa [Except.toOption] using h
  · simp [hstarts]

/-- The verified copies after an `Ok`. -/
theorem copies_call {op : MirrorCall} {n' : MirrorNode}
    (hdisk : n.store.inner.kind = .disk) (hdisks : ∀ p ∈ n.others, p.store.inner.kind = .disk)
    (hcall : n.call H d op = some (.ok (), n')) :
    n'.copies H d + n.deceived H d op =
      (if n.ownVerified H d op then 1 else 0) + n.mirror.getD 0 + n.spare H d op := by
  have hok := ((call_ok_iff hdisk hcall).mp rfl).2
  have hle := countP_reach_le (Neighbour.counts H d (n.body H d op)) (n.mirror.getD 0) n.others
  have hbal := balance (H := H) (d := d) (n.body H d op) (n.walk H d op).1
  have hsplit := reach_append (Neighbour.counts H d (n.body H d op)) (n.mirror.getD 0) n.others
  simp only [enough, decide_eq_true_eq] at hok
  -- on the other nodes: those asked end as predicted, the rest are as they were
  have hothers : n'.copies H d = (if n.ownVerified H d op then 1 else 0) +
      ((n.walk H d op).1.countP (Neighbour.endsVerified H d (n.body H d op)) +
        (n.walk H d op).2.countP fun p => p.store.inner.verified H d) := by
    rcases call_cases hdisk hcall with ⟨-, t, hkind, hown, hbody, hpush⟩ | ⟨-, e, he⟩
    · rw [← hown, walk, ← hbody]
      cases hget : t.inner.get H d with
      | ok b =>
        have hafter := (runMirror_read (n := { n with store := t }) hget).2
        rw [hpush] at hafter
        dsimp only at hafter
        rw [← hbody, hget] at hsplit
        simp only [hafter, copies, List.countP_append, Except.toOption]
        rw [countP_after fun p hp => hdisks p (by
          rw [← hsplit]
          exact List.mem_append_left _ hp)]
      | error e =>
        have hafter := (runMirror_unread (n := { n with store := t }) hget).2
        rw [hpush] at hafter
        dsimp only at hafter
        rw [← hbody, hget] at hsplit
        simp only [hafter, copies, Except.toOption, Neighbour.endsVerified_none]
        rw [← List.countP_append]
        exact congrArg (_ + List.countP _ ·) hsplit.symm
    · cases he
  rw [hothers, deceived, spare]
  unfold walk at hok hbal ⊢
  omega

end MirrorNode

/-! ## The theorem -/

/-- For every content of the disks, every order of the peers and every behaviour of the network: a
call that returns `Ok` leaves `R` verified copies exactly when the copies it did not count make up for
those that do not verify. -/
theorem acknowledged_copies_verified {H : HashFn} {d : Digest} {cfg : CasConfig} {n n' : MirrorNode}
    {op : MirrorCall} {out : Except BackendError Unit} (hmode : cfg.mode = .writeOnly)
    (hcfg : cfg.peerCopies = .ok n.mirror) (hdisk : n.store.inner.kind = .disk)
    (hdisks : ∀ p ∈ n.others, p.store.inner.kind = .disk)
    (hcall : n.call H d op = some (out, n')) :
    (out = .ok () → cfg.copies ≤ n'.copies H d) ↔ n.Covered H d op := by
  have hok := MirrorNode.call_ok_iff hdisk hcall
  obtain ⟨-, -, -, hpos, hmirror⟩ := CasConfig.peerCopies_writeOnly hmode hcfg
  have htarget : n.mirror.getD 0 + 1 = cfg.copies := by
    rw [hmirror]
    split
    · next hone => rw [hone]; rfl
    · exact Nat.sub_add_cancel hpos
  have hown : (if n.ownVerified H d op then 0 else 1) +
      (if n.ownVerified H d op then 1 else 0) = 1 := by
    cases n.ownVerified H d op <;> rfl
  constructor
  · intro hcopies hgoes henough
    have hret := hok.mpr ⟨hgoes, henough⟩
    have hle := hcopies hret
    subst hret
    have hcount := MirrorNode.copies_call hdisk hdisks hcall
    omega
  · intro hcovered hret
    have hle := hcovered (hok.mp hret).1 (hok.mp hret).2
    subst hret
    have hcount := MirrorNode.copies_call hdisk hdisks hcall
    omega

/-! ## A peer whose file has gone bad -/

/-- A node with two copies to make, and its one durable peer, whose file of the blob reads `[9, 9]`.
-/
def besideCorruptPeer (heard : Bool) : MirrorNode where
  store := .new ⟨.disk, ∅, ∅, false⟩ (.writeOnly 10) 0 [] []
  mirror := some 1
  others := [{
    durable := true
    store := .new ⟨.disk, Finmap.singleton (.compute .short [1, 2]) [9, 9], ∅, false⟩ (.writeOnly 10) 0
      [⟨.compute .short [1, 2], 2⟩] []
    heard, arrives := true, evs := fastWrite [1, 2], replied := true, heardAgain := true }]

/-- `put_keyed` returns `Ok` with `R = 2`, and the only copy that verifies is this node's own. -/
theorem acknowledged_copy_corrupt :
    (smallNode .writeOnly (some 2) ['a'] [⟨['b'], true⟩]).peerCopies =
        .ok (besideCorruptPeer true).mirror ∧
      ∃ n', (besideCorruptPeer true).call .short (.compute .short [1, 2])
          (.putKeyed [1, 2] (gatedWrite [1, 2])) = some (.ok (), n') ∧
        n'.copies .short (.compute .short [1, 2]) = 1 := by
  have hrun : ((besideCorruptPeer true).call .short (.compute .short [1, 2])
      (.putKeyed [1, 2] (gatedWrite [1, 2]))).any (fun r => r.1.isOk &&
        r.2.copies .short (.compute .short [1, 2]) = 1) = true := by
    decide +kernel
  obtain ⟨⟨out, n'⟩, hcall, hP⟩ := (Option.any_eq_true _ _).mp hrun
  rw [Bool.and_eq_true] at hP
  refine ⟨rfl, n', ?_, of_decide_eq_true hP.2⟩
  cases out with
  | ok u => exact hcall
  | error e => cases hP.1

/-- The same peer, whose first answer is lost: it is sent the blob, and heals. -/
theorem acknowledged_copies_verified_healed :
    ∃ n', (besideCorruptPeer false).call .short (.compute .short [1, 2])
        (.putKeyed [1, 2] (gatedWrite [1, 2])) = some (.ok (), n') ∧
      2 ≤ n'.copies .short (.compute .short [1, 2]) := by
  have hrun : ((besideCorruptPeer false).call .short (.compute .short [1, 2])
      (.putKeyed [1, 2] (gatedWrite [1, 2]))).any (fun r => r.1.isOk) = true := by
    decide +kernel
  obtain ⟨⟨out, n'⟩, hcall, hok⟩ := (Option.any_eq_true _ _).mp hrun
  cases out with
  | ok u =>
    have hmode : (smallNode .writeOnly (some 2) ['a'] [⟨['b'], true⟩]).mode = .writeOnly := rfl
    have hiff := acknowledged_copies_verified hmode rfl rfl (by decide) hcall
    exact ⟨n', hcall, hiff.mpr (by decide +kernel) rfl⟩
  | error e => cases hok

end NessieStore
