import NessieStore.Lib.Reach
import NessieStore.Store.Sequential
import NessieStore.Swarm.Network

/-!
# One push, alone

`CasNode::put_keyed` and `ensure_replicated` on a node of a swarm in which nothing else runs: the loop
of `push_counting` (`nessie-cas-peer`, `durable.rs`) over the other nodes in the order this node lists
them, whatever their disks hold. A `Neighbour` is another node together with what the network does to
the requests this call sends it.

Such a loop has a closed form. It walks the nodes until enough of them have confirmed
(`Lib.reach`), and whether a node confirms, and what it holds afterwards, depends on that node alone
(`Neighbour.counts`, `Neighbour.after`): see `pushCounting_read` and `pushCounting_unread`.
-/

set_option autoImplicit false

namespace NessieStore

open Lib

/-- The live copy of `d` hashes to `d`. -/
def LocalCas.verified (H : HashFn) (c : LocalCas) (d : Digest) : Bool :=
  (c.blobs.lookup d).any fun bytes => d.verify H bytes

/-- `CasNode::put_keyed_local` of a body, alone; `none` when the events do not bring it to its
end. -/
def CasStore.putKeyedLocal (H : HashFn) (s : CasStore) (d : Digest) (body : Bytes)
    (evs : List WriteEvent) : Option (Except BackendError Unit × CasStore) :=
  (s.putKeyed H d body evs).map fun r =>
    match r with
    | (.ok u, t) => (.ok u, t.releaseGuard d)
    | (.error e, t) => (.error e, t)

/-- Another node, and what becomes of the requests that one call sends it. -/
structure Neighbour where
  /-- The hint for it in this node's configuration; `false` also when it is not listed. -/
  durable : Bool
  store : CasStore
  /-- The reply to the first `HEAD` arrives. -/
  heard : Bool
  /-- The `PUT` arrives. -/
  arrives : Bool
  /-- How the write goes that the `PUT` starts; one that does not end here is answered too late. -/
  evs : List WriteEvent
  /-- The reply to the `PUT` arrives. -/
  replied : Bool
  /-- The reply to the second `HEAD` arrives. -/
  heardAgain : Bool

namespace Neighbour

variable (H : HashFn) (d : Digest)

/-- `head_blob` answers with success, and with `x-nessie-mode: write_only`. -/
def holds (p : Neighbour) : Bool := p.store.inner.has d && p.store.writeOnly

/-- `PeerSet::put`, and the node afterwards. -/
def put (p : Neighbour) (body : Bytes) : Bool × Neighbour :=
  if p.arrives then
    match p.store.putKeyedLocal H d body p.evs with
    | some (.ok _, t) => (p.replied, { p with store := t })
    | some (.error _, t) => (false, { p with store := t })
    | none => (false, p)
  else (false, p)

end Neighbour

/-- One turn of the loop of `push_counting`: the peer and the counts afterwards. -/
def visit (H : HashFn) (source : LocalCas) (d : Digest) (p : Neighbour) (acc : Pushed) :
    Except BackendError (Neighbour × Pushed) :=
  if p.heard && p.holds d then .ok (p, { acc with held := acc.held + 1 })
  else
    match source.get H d with
    | .error e => .error e
    | .ok body =>
      let sent := p.put H d body
      .ok (sent.2, if sent.1 && sent.2.heardAgain && sent.2.holds d then
        ⟨acc.held + 1, acc.sent + 1⟩ else acc)

/-- `HttpReplicator::push_counting`, and the other nodes afterwards. -/
def pushCounting (H : HashFn) (source : LocalCas) (d : Digest) (target : Nat) :
    List Neighbour → Pushed → Except BackendError Pushed × List Neighbour
  | [], acc => (.ok acc, [])
  | p :: ps, acc =>
    let go (p : Neighbour) (acc : Pushed) : Except BackendError Pushed × List Neighbour :=
      let r := pushCounting H source d target ps acc
      (r.1, p :: r.2)
    if p.durable = false then go p acc
    else if target ≤ acc.held then (.ok acc, p :: ps)
    else
      match visit H source d p acc with
      | .error e => (.error e, p :: ps)
      | .ok (p, acc) => go p acc

/-- The node that is called, and the others. -/
structure MirrorNode where
  store : CasStore
  /-- `Mirror::peer_copies`, when there is a mirror. -/
  mirror : Option Nat
  /-- Every other node of the swarm, those of the peer set in its order. -/
  others : List Neighbour

namespace MirrorNode

variable (H : HashFn) (d : Digest)

/-- `CasNode::mirror`. -/
def runMirror (n : MirrorNode) : Except BackendError Unit × MirrorNode :=
  match n.mirror with
  | none => (.ok (), n)
  | some required =>
    let r := pushCounting H n.store.inner d required n.others ⟨0, 0⟩
    let out := match r.1 with
      | .error e => .error e
      | .ok pushed =>
        if pushed.held < required then .error (.underreplicated pushed.held required) else .ok ()
    (out, { n with others := r.2 })

/-- `CasNode::put_keyed` of a body. -/
def putKeyed (n : MirrorNode) (body : Bytes) (evs : List WriteEvent) :
    Option (Except BackendError Unit × MirrorNode) :=
  (n.store.putKeyedLocal H d body evs).map fun r =>
    match r with
    | (.ok _, t) => runMirror H d { n with store := t }
    | (.error e, t) => (.error e, { n with store := t })

/-- `CasNode::ensure_replicated`. -/
def ensureReplicated (n : MirrorNode) : Except BackendError Unit × MirrorNode :=
  if n.mirror.isNone then (.ok (), n)
  else if n.store.inner.has d then n.runMirror H d
  else (.error (.blobNotFound d), n)

/-- How many nodes of the swarm hold a copy of `d` that hashes to `d`. -/
def copies (n : MirrorNode) : Nat :=
  (if n.store.inner.verified H d then 1 else 0) +
    n.others.countP fun p => p.store.inner.verified H d

end MirrorNode

/-! ## What a neighbour will do, from what it is before the call

Below, `body` is what this node would send: nothing, when it cannot read its own copy.
-/

namespace Neighbour

variable (H : HashFn) (d : Digest)

/-- It answers the first `HEAD`, and the answer is yes. -/
def confirms (p : Neighbour) : Bool := p.heard && p.holds d

/-- It would take the body: the `PUT` arrives and its own `put_keyed` of it succeeds. -/
def takes (body : Option Bytes) (p : Neighbour) : Bool :=
  p.arrives && (body.bind fun b => p.store.putKeyed H d b p.evs).any fun r => r.1.isOk

/-- It would be counted if it were asked: at once, or after taking the body. -/
def counts (body : Option Bytes) (p : Neighbour) : Bool :=
  p.durable && (p.confirms d ||
    p.takes H d body && p.replied && p.heardAgain && p.store.writeOnly)

/-- The node after the loop has passed it. -/
def after (body : Bytes) (p : Neighbour) : Neighbour :=
  if p.durable && !p.confirms d then (p.put H d body).2 else p

/-- A `PUT` lands the body, or leaves the blobs alone. -/
theorem put_cases (p : Neighbour) (body : Bytes) :
    (p.takes H d (some body) = true ∧ d.verify H body = true ∧
      ∃ t : CasStore, t.mode = p.store.mode ∧ t.inner = p.store.inner.land d body ∧
        p.put H d body = (p.replied, { p with store := t })) ∨
    (p.takes H d (some body) = false ∧ ∃ t : CasStore, t.inner = p.store.inner ∧
      p.put H d body = (false, { p with store := t })) := by
  obtain ⟨durable, s, heard, arrives, evs, replied, heardAgain⟩ := p
  simp only [put, takes, CasStore.putKeyedLocal, Option.bind_some]
  cases arrives with
  | false => exact .inr ⟨rfl, s, rfl, rfl⟩
  | true =>
    cases hput : s.putKeyed H d body evs with
    | none => exact .inr ⟨rfl, s, rfl, rfl⟩
    | some r =>
      obtain ⟨out, t⟩ := r
      have hspec := (CasStore.putKeyed_spec hput).2
      cases out with
      | ok u =>
        obtain ⟨hv, hmode, hinner⟩ := CasStore.Wrote.landed hspec
        exact .inl ⟨rfl, hv, t.releaseGuard d, hmode, hinner, rfl⟩
      | error e => exact .inr ⟨rfl, t, hspec.inner, rfl⟩

/-- A `PUT` does not change what this node thinks of the peer. -/
theorem put_durable (p : Neighbour) (body : Bytes) : (p.put H d body).2.durable = p.durable := by
  rcases put_cases H d p body with ⟨-, -, t, -, -, hput⟩ | ⟨-, t, -, hput⟩
  · rw [hput]
  · rw [hput]

/-- Whether the second `HEAD` confirms is settled by whether the node takes the body. -/
theorem confirmsAgain_eq (p : Neighbour) (body : Bytes) :
    ((p.put H d body).1 && (p.put H d body).2.heardAgain && (p.put H d body).2.holds d) =
      (p.takes H d (some body) && p.replied && p.heardAgain && p.store.writeOnly) := by
  rcases put_cases H d p body with ⟨htakes, -, t, hmode, hinner, hput⟩ | ⟨htakes, t, -, hput⟩
  · simp [hput, htakes, holds, hinner, CasStore.writeOnly, hmode, LocalCas.has_land]
  · simp [hput, htakes]

/-- A node holds a copy that verifies after the loop has passed it, if it did before or was sent the
body and took it. -/
theorem verified_after (p : Neighbour) (hdisk : p.store.inner.kind = .disk) (body : Bytes) :
    (p.after H d body).store.inner.verified H d = (p.store.inner.verified H d ||
      p.durable && !p.confirms d && p.takes H d (some body)) := by
  unfold after
  cases p.durable && !p.confirms d with
  | false => simp
  | true =>
    rcases put_cases H d p body with
      ⟨htakes, hv, t, -, hinner, hput⟩ | ⟨htakes, t, hinner, hput⟩
    · simp [hput, htakes, hinner, LocalCas.verified, LocalCas.lookup_land_disk hdisk, hv]
    · simp [hput, htakes, hinner]

end Neighbour

/-! ## The loop in closed form -/

section Closed

variable {H : HashFn} {source : LocalCas} {d : Digest} {target : Nat}

/-- A peer that confirms is counted as it is. -/
theorem visit_confirms {p : Neighbour} (h : p.confirms d = true) (acc : Pushed) :
    visit H source d p acc = .ok (p, { acc with held := acc.held + 1 }) :=
  if_pos h

/-- A peer that does not is sent the blob, and counted if it then would be. -/
theorem visit_sends {p : Neighbour} (hdur : p.durable = true) (h : p.confirms d = false)
    {body : Bytes} (hget : source.get H d = .ok body) (acc : Pushed) :
    visit H source d p acc = .ok (p.after H d body,
      if p.counts H d (some body) then ⟨acc.held + 1, acc.sent + 1⟩ else acc) := by
  have hhead : (p.heard && p.holds d) = false := h
  have hcounts : p.counts H d (some body) = ((p.put H d body).1 && (p.put H d body).2.heardAgain &&
      (p.put H d body).2.holds d) := by
    simp [Neighbour.counts, hdur, h, Neighbour.confirmsAgain_eq]
  have hafter : p.after H d body = (p.put H d body).2 := by
    simp [Neighbour.after, hdur, h]
  simp only [visit, hhead, hget, hcounts, hafter]
  rfl

/-- A peer that does not, when the blob cannot be read, ends the loop. -/
theorem visit_unread {p : Neighbour} (h : p.confirms d = false) {e : BackendError}
    (hget : source.get H d = .error e) (acc : Pushed) : visit H source d p acc = .error e := by
  have hhead : (p.heard && p.holds d) = false := h
  simp [visit, hhead, hget]

/-- Once enough have confirmed, nobody else is asked. -/
theorem pushCounting_done {acc : Pushed} (h : target ≤ acc.held) (ps : List Neighbour) :
    pushCounting H source d target ps acc = (.ok acc, ps) := by
  induction ps with
  | nil => rfl
  | cons p ps ih =>
    simp only [pushCounting, ih, h, if_true]
    split <;> rfl

/-- A node without the hint is passed over. -/
theorem pushCounting_unhinted {p : Neighbour} (h : p.durable = false) (ps : List Neighbour)
    (acc : Pushed) : pushCounting H source d target (p :: ps) acc =
      ((pushCounting H source d target ps acc).1, p :: (pushCounting H source d target ps acc).2) := by
  simp [pushCounting, h]

/-- A peer is visited while there are too few. -/
theorem pushCounting_visit {p p' : Neighbour} (h : p.durable = true) {acc acc' : Pushed}
    (hmore : acc.held < target) (hvisit : visit H source d p acc = .ok (p', acc'))
    (ps : List Neighbour) : pushCounting H source d target (p :: ps) acc =
      ((pushCounting H source d target ps acc').1,
        p' :: (pushCounting H source d target ps acc').2) := by
  simp [pushCounting, h, Nat.not_le.mpr hmore, hvisit]

theorem pushCounting_error {p : Neighbour} (h : p.durable = true) {acc : Pushed}
    (hmore : acc.held < target) {e : BackendError} (hvisit : visit H source d p acc = .error e)
    (ps : List Neighbour) :
    pushCounting H source d target (p :: ps) acc = (.error e, p :: ps) := by
  simp [pushCounting, h, Nat.not_le.mpr hmore, hvisit]

/-- A node that can read its own copy passes the nodes it reaches, and those that would be counted
are counted. -/
theorem pushCounting_read {body : Bytes} (hget : source.get H d = .ok body) {t : Nat} {acc : Pushed}
    (ht : acc.held + t = target) (ps : List Neighbour) :
    ∃ sent, pushCounting H source d target ps acc =
      (.ok ⟨acc.held + (reach (Neighbour.counts H d (some body)) t ps).1.countP
          (Neighbour.counts H d (some body)), sent⟩,
        (reach (Neighbour.counts H d (some body)) t ps).1.map (Neighbour.after H d body) ++
          (reach (Neighbour.counts H d (some body)) t ps).2) := by
  induction ps generalizing t acc with
  | nil => cases t <;> exact ⟨acc.sent, by simp [pushCounting, reach]⟩
  | cons p ps ih =>
    cases t with
    | zero => exact ⟨acc.sent, by simp [pushCounting_done (Nat.le_of_eq ht.symm)]⟩
    | succ t =>
      have hmore : acc.held < target := by omega
      cases hdur : p.durable with
      | false =>
        have hno : p.counts H d (some body) = false := by simp [Neighbour.counts, hdur]
        obtain ⟨sent, hrec⟩ := ih ht
        refine ⟨sent, ?_⟩
        rw [reach_cons_false hno, pushCounting_unhinted hdur, hrec]
        simp [hno, Neighbour.after, hdur]
      | true =>
        -- after the visit the counts are `acc'`, one more exactly when the peer is counted
        have hvisit : ∃ acc' : Pushed,
            visit H source d p acc = .ok (p.after H d body, acc') ∧
              acc'.held = acc.held + (p.counts H d (some body)).toNat := by
          cases hconf : p.confirms d with
          | true =>
            have hsame : p.after H d body = p := by simp [Neighbour.after, hconf]
            rw [hsame]
            exact ⟨_, visit_confirms hconf acc, by simp [Neighbour.counts, hdur, hconf]⟩
          | false =>
            refine ⟨_, visit_sends hdur hconf hget acc, ?_⟩
            cases p.counts H d (some body) <;> rfl
        obtain ⟨acc', hvisit, hheld⟩ := hvisit
        cases hyes : p.counts H d (some body) with
        | true =>
          rw [hyes] at hheld
          have ht' : acc'.held + t = target := by
            rw [hheld, Bool.toNat_true]
            omega
          obtain ⟨sent, hrec⟩ := ih ht'
          refine ⟨sent, ?_⟩
          rw [reach_cons_true hyes, pushCounting_visit hdur hmore hvisit, hrec, hheld]
          simp [hyes]
          omega
        | false =>
          rw [hyes] at hheld
          have ht' : acc'.held + (t + 1) = target := by
            rw [hheld, Bool.toNat_false]
            omega
          obtain ⟨sent, hrec⟩ := ih ht'
          refine ⟨sent, ?_⟩
          rw [reach_cons_false hyes, pushCounting_visit hdur hmore hvisit, hrec, hheld]
          simp [hyes]

/-- A node that cannot read its own copy counts those that confirm at once, and gives up at the
first that does not. -/
theorem pushCounting_unread {e : BackendError} (hget : source.get H d = .error e) {t : Nat}
    {acc : Pushed} (ht : acc.held + t = target) (ps : List Neighbour) :
    pushCounting H source d target ps acc =
      (if (reach (Neighbour.counts H d none) t ps).1.any (fun p => p.durable && !p.confirms d) then
          .error e
        else .ok ⟨acc.held + (reach (Neighbour.counts H d none) t ps).1.countP
          (Neighbour.counts H d none), acc.sent⟩, ps) := by
  induction ps generalizing t acc with
  | nil => cases t <;> simp [pushCounting, reach]
  | cons p ps ih =>
    cases t with
    | zero => simp [pushCounting_done (Nat.le_of_eq ht.symm)]
    | succ t =>
      have hmore : acc.held < target := by omega
      cases hdur : p.durable with
      | false =>
        have hno : p.counts H d none = false := by simp [Neighbour.counts, hdur]
        rw [reach_cons_false hno, pushCounting_unhinted hdur, ih ht]
        simp [hdur, hno]
      | true =>
        cases hconf : p.confirms d with
        | true =>
          have hyes : p.counts H d none = true := by simp [Neighbour.counts, hdur, hconf]
          have ht' : { acc with held := acc.held + 1 }.held + t = target := by
            dsimp only
            omega
          rw [reach_cons_true hyes, pushCounting_visit hdur hmore (visit_confirms hconf acc), ih ht']
          simp [hyes, hconf]
          congr 3
          omega
        | false =>
          have hno : p.counts H d none = false := by
            simp [Neighbour.counts, Neighbour.takes, hconf]
          rw [reach_cons_false hno, pushCounting_error hdur hmore (visit_unread hconf hget acc)]
          simp [hdur, hconf]

end Closed

end NessieStore
