import NessieStore.Store.System
import NessieStore.Swarm.Config

/-!
# A swarm of nodes

`CasNode::put`, `put_keyed` and `ensure_replicated` (`nessie-store`, `cas_node.rs`) with the mirror
behind them: `HttpReplicator::push_counting` (`nessie-cas-peer`, `durable.rs`) asks one hinted peer
after the other with `HEAD`, sends the blob with `PUT` where the answer was no, and asks again. A
peer serves `HEAD` from its own disk and its own mode, and a `PUT` is a `put_keyed_local` there
(`cas_routes.rs`).

A `Swarm` is a list of nodes, each a store with what runs against it (`Store.System`) beside the
client calls that are waiting. Every step of a call is a step of the swarm, so anything may happen
between a peer's answer and the next request. The network may drop any request or reply; what it
delivers is what the peer said. `resolve` is the name service: the node that answers at a URL.
-/

set_option autoImplicit false

namespace NessieStore

open Lib

/-- `Pushed`: the peers confirmed so far, and the copies sent to get there. -/
structure Pushed where
  held : Nat
  sent : Nat
deriving DecidableEq

/-- A client's call on a node. -/
inductive ClientOp
  | put
  | putKeyed (d : Digest)
  | ensureReplicated (d : Digest)
deriving DecidableEq

/-- The call writes the blob itself. -/
def ClientOp.writes : ClientOp → Bool
  | .put | .putKeyed _ => true
  | .ensureReplicated _ => false

/-- How far a client's call is. -/
inductive ClientPhase
  /-- Waits for the `k`th write of the node's store. -/
  | writing (k : Nat)
  /-- `ensure_replicated` has been entered. -/
  | checking (d : Digest)
  /-- At the head of `push_counting`'s loop. -/
  | pushing (d : Digest) (todo : List CasPeer) (acc : Pushed)
  /-- The peer did not confirm: the blob is to be read and sent. -/
  | sending (d : Digest) (peer : CasPeer) (todo : List CasPeer) (acc : Pushed)
  | awaiting (d : Digest) (peer : CasPeer) (todo : List CasPeer) (acc : Pushed)
  /-- The peer answered the `PUT` with success and is asked again. -/
  | confirming (d : Digest) (peer : CasPeer) (todo : List CasPeer) (acc : Pushed)
  /-- `Ok` of the call's digest, or its error. -/
  | returned (out : Except BackendError Digest)
deriving DecidableEq

structure ClientCall where
  op : ClientOp
  phase : ClientPhase
deriving DecidableEq

/-- What can happen to a client's call. -/
inductive ClientEvent
  | next
  /-- A `HEAD`; `answered` when the reply arrives. -/
  | head (answered : Bool)
  /-- A `PUT`; `arrives` when the request does. -/
  | put (arrives : Bool)
  /-- The reply to the `PUT`: success, or anything else. -/
  | reply (success : Bool)
  /-- The local store could not be read. -/
  | fail (message : String)
deriving DecidableEq

/-- A running node. -/
structure SwarmNode where
  cfg : CasConfig
  /-- The peer set, in order. -/
  peers : List CasPeer
  /-- `Mirror::peer_copies`, when there is a mirror. -/
  mirror : Option Nat
  sys : Sys
  calls : List ClientCall

namespace SwarmNode

def has (n : SwarmNode) (d : Digest) : Bool := n.sys.store.inner.has d

/-- `x-nessie-mode` says `write_only`. -/
def writeOnly (n : SwarmNode) : Bool := n.sys.store.writeOnly

/-- The peers that the configuration calls durable. -/
def targets (n : SwarmNode) : List CasPeer := n.peers.filter CasPeer.durable

/-- The directory as the next process finds it. -/
def directory (n : SwarmNode) : LocalCas := { n.sys.store.inner with commitLock := false }

/-- `CasNode::from_config`, where the directory under `path` holds `disk`. -/
def fromConfig (cfg : CasConfig) (disk : LocalCas) (now : Nat) (blobs : List LocalBlob)
    (aside : List QuarantinedBlob) : Except String SwarmNode := do
  let mode ← cfg.retentionPolicy
  let copies ← cfg.peerCopies
  let inner ← match cfg.backend, cfg.path with
    | .mem, _ => .ok ⟨.mem, ∅, ∅, false⟩
    | .disk, some _ => .ok disk
    | .disk, none => .error "[cas] backend = \"disk\" requires path"
  let list ← cfg.effectivePeers
  return {
    cfg
    peers := peerSet list
    mirror := if list.isEmpty then none else copies
    sys := .idle (CasStore.new inner mode now blobs aside)
    calls := [] }

/-- What `from_config` gives when it accepts. -/
theorem fromConfig_ok {cfg : CasConfig} {disk : LocalCas} {now : Nat} {blobs : List LocalBlob}
    {aside : List QuarantinedBlob} {n : SwarmNode}
    (h : fromConfig cfg disk now blobs aside = .ok n) :
    ∃ mode copies list inner, cfg.retentionPolicy = .ok mode ∧ cfg.peerCopies = .ok copies ∧
      cfg.effectivePeers = .ok list ∧ (cfg.backend = .disk → inner = disk) ∧
      n = { cfg, peers := peerSet list, mirror := if list.isEmpty then none else copies,
            sys := .idle (CasStore.new inner mode now blobs aside), calls := [] } := by
  unfold fromConfig at h
  cases hmode : cfg.retentionPolicy with
  | error e => simp [hmode, bind, Except.bind] at h
  | ok mode =>
    cases hcopies : cfg.peerCopies with
    | error e => simp [hmode, hcopies, bind, Except.bind] at h
    | ok copies =>
      cases hlist : cfg.effectivePeers with
      | error e =>
        simp only [hmode, hcopies, hlist, bind, Except.bind] at h
        split at h <;> cases h
      | ok list =>
        simp only [hmode, hcopies, hlist, bind, Except.bind] at h
        split at h
        · next hmem =>
          cases h
          exact ⟨mode, copies, list, _, rfl, rfl, rfl, by simp [hmem], rfl⟩
        · cases h
          exact ⟨mode, copies, list, disk, rfl, rfl, rfl, fun _ => rfl, rfl⟩
        · cases h

theorem calls_fromConfig {cfg : CasConfig} {disk : LocalCas} {now : Nat} {blobs : List LocalBlob}
    {aside : List QuarantinedBlob} {n : SwarmNode}
    (h : fromConfig cfg disk now blobs aside = .ok n) : n.calls = [] := by
  obtain ⟨_, _, _, _, -, -, -, -, rfl⟩ := fromConfig_ok h
  rfl

/-- `CasNode::mirror` begins, or there is none. -/
def mirroring (n : SwarmNode) (d : Digest) : ClientPhase :=
  match n.mirror with
  | none => .returned (.ok d)
  | some _ => .pushing d n.targets ⟨0, 0⟩

/-- The end of `CasNode::mirror`: enough peers, or a shortfall. -/
def settle (n : SwarmNode) (d : Digest) (acc : Pushed) : ClientPhase :=
  if acc.held < n.mirror.getD 0 then
    .returned (.error (.underreplicated acc.held (n.mirror.getD 0)))
  else .returned (.ok d)

end SwarmNode

/-- What a call's step does beside moving the call. -/
inductive Effect
  | nothing
  /-- `CasStore::committed`. -/
  | release (d : Digest)
  /-- A `PUT` reaches the node at `url`. -/
  | upload (url : Url) (d : Digest) (body : Bytes)
deriving DecidableEq

/-- One step of a client's call on `n`, where `holds p d` says that peer `p` holds `d` and reports
`write_only`. -/
def ClientPhase.step (H : HashFn) (n : SwarmNode) (holds : CasPeer → Digest → Bool) :
    ClientPhase → ClientEvent → Option (ClientPhase × Effect)
  | .writing k, .next =>
    match n.sys.puts[k]? with
    | some (.keyed ⟨d, _, .returned (.ok _)⟩) => some (n.mirroring d, .release d)
    | some (.keyed ⟨_, _, .returned (.error e)⟩) => some (.returned (.error e), .nothing)
    | some (.failed e) => some (.returned (.error e), .nothing)
    | _ => none
  | .checking d, .next =>
    if n.mirror.isNone then some (.returned (.ok d), .nothing)
    else if n.has d then some (n.mirroring d, .nothing)
    else some (.returned (.error (.blobNotFound d)), .nothing)
  | .checking _, .fail message => some (.returned (.error (.internal message)), .nothing)
  | .pushing d todo acc, .next =>
    if todo = [] ∨ n.mirror.getD 0 ≤ acc.held then some (n.settle d acc, .nothing) else none
  | .pushing d (p :: todo) acc, .head answered =>
    if n.mirror.getD 0 ≤ acc.held then none
    else if answered && holds p d then
      some (.pushing d todo { acc with held := acc.held + 1 }, .nothing)
    else some (.sending d p todo acc, .nothing)
  | .sending d p todo acc, .put arrives =>
    match n.sys.store.inner.get H d with
    | .error e => some (.returned (.error e), .nothing)
    | .ok body =>
      if arrives then some (.awaiting d p todo acc, .upload p.url d body)
      else some (.pushing d todo acc, .nothing)
  | .sending .., .fail message => some (.returned (.error (.internal message)), .nothing)
  | .awaiting d p todo acc, .reply success =>
    some (if success then .confirming d p todo acc else .pushing d todo acc, .nothing)
  | .confirming d p todo acc, .head answered =>
    some (if answered && holds p d then .pushing d todo ⟨acc.held + 1, acc.sent + 1⟩
      else .pushing d todo acc, .nothing)
  | _, _ => none

abbrev Swarm := List SwarmNode

inductive SwarmAct
  /-- Something happens at the store of node `j`: a write, a scrub, an eviction pass. -/
  | store (j : Nat) (a : Act)
  /-- An `lru` node keeps a blob it fetched from a peer. -/
  | fill (j : Nat) (d : Digest) (body : Bytes)
  /-- Node `j` is shut down and opened again; its running calls are gone. -/
  | restart (j now : Nat) (blobs : List LocalBlob) (aside : List QuarantinedBlob)
  /-- A client calls node `i`. -/
  | call (i : Nat) (op : ClientOp)
  | client (i k : Nat) (ev : ClientEvent)

/-- The node that a step restarts. -/
def SwarmAct.restarts : SwarmAct → Option Nat
  | .restart j .. => some j
  | _ => none

namespace SwarmNode

/-- A `put_keyed_local` of a received body begins. -/
def receive (n : SwarmNode) (d : Digest) (body : Bytes) : SwarmNode :=
  { n with sys := { n.sys with puts := n.sys.puts ++ [.keyed ⟨d, .body body, .entered⟩] } }

/-- A client's call begins. -/
def accept (n : SwarmNode) (op : ClientOp) : SwarmNode :=
  let write (p : Putter) : SwarmNode :=
    { n with
      sys := { n.sys with puts := n.sys.puts ++ [p] }
      calls := n.calls ++ [⟨op, .writing n.sys.puts.length⟩] }
  match op with
  | .put => write (.spooling [])
  | .putKeyed d => write (.keyed ⟨d, .stream, .entered⟩)
  | .ensureReplicated d => { n with calls := n.calls ++ [⟨op, .checking d⟩] }

theorem mem_calls_accept {n : SwarmNode} {op : ClientOp} {c : ClientCall}
    (h : c ∈ (n.accept op).calls) : c ∈ n.calls ∨ (∃ k, c = ⟨op, .writing k⟩) ∨
      ∃ d, op = .ensureReplicated d ∧ c = ⟨op, .checking d⟩ := by
  cases op with
  | put =>
    rcases List.mem_append.mp h with h | h
    · exact .inl h
    · exact .inr (.inl ⟨_, List.mem_singleton.mp h⟩)
  | putKeyed d =>
    rcases List.mem_append.mp h with h | h
    · exact .inl h
    · exact .inr (.inl ⟨_, List.mem_singleton.mp h⟩)
  | ensureReplicated d =>
    rcases List.mem_append.mp h with h | h
    · exact .inl h
    · exact .inr (.inr ⟨d, rfl, List.mem_singleton.mp h⟩)

/-- The `k`th call has moved to `phase`, releasing the guard of a write that is done. -/
def proceed (n : SwarmNode) (k : Nat) (op : ClientOp) (phase : ClientPhase) (eff : Effect) :
    SwarmNode :=
  { n with
    sys := match eff with
      | .release d => { n.sys with store := n.sys.store.releaseGuard d }
      | _ => n.sys
    calls := n.calls.set k ⟨op, phase⟩ }

end SwarmNode

namespace Swarm

variable (H : HashFn) (resolve : Url → Option Nat)

/-- `PeerSet::holds_durably`, when the peer's answer arrives. -/
def holdsDurably (x : Swarm) (p : CasPeer) (d : Digest) : Bool :=
  ((resolve (normUrl p.url)).bind (x[·]?)).any fun n => n.has d && n.writeOnly

/-- What an effect does at the other end. -/
def deliver (x : Swarm) : Effect → Swarm
  | .upload url d body =>
    match resolve (normUrl url) with
    | some j =>
      match x[j]? with
      | some n => x.set j (n.receive d body)
      | none => x
    | none => x
  | _ => x

def step (x : Swarm) : SwarmAct → Option Swarm
  | .store j a =>
    x[j]?.bind fun n => (Sys.step H n.sys a).map fun sys => x.set j { n with sys }
  | .fill j d body =>
    x[j]?.bind fun n =>
      if n.writeOnly = false ∧ n.sys.store.inner.commitLock = false ∧ d.verify H body then
        some (x.set j { n with sys := { n.sys with store := n.sys.store.land d body } })
      else none
  | .restart j now blobs aside =>
    x[j]?.bind fun n =>
      match SwarmNode.fromConfig n.cfg n.directory now blobs aside with
      | .ok n' =>
        if n'.sys.store.inner.IterLocal blobs ∧ n'.sys.store.inner.IterQuarantine aside then
          some (x.set j n')
        else none
      | .error _ => none
  | .call i op => x[i]?.map fun n => x.set i (n.accept op)
  | .client i k ev =>
    x[i]?.bind fun n => n.calls[k]?.bind fun c =>
      (c.phase.step H n (x.holdsDurably resolve) ev).map fun r =>
        deliver resolve (x.set i (n.proceed k c.op r.1 r.2)) r.2

end Swarm

end NessieStore
