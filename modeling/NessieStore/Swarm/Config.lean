import Mathlib.Data.List.DropRight
import NessieStore.Store.State

/-!
# The `[cas]` configuration

The part of `CasConfig` (`nessie-store`, `config.rs`) that decides how a node is opened, and the
functions of `from_config` (`cas_node.rs`) and `PeerSet::with_tls` (`nessie-cas-peer`, `peers.rs`)
that check it: `retention_policy`, `effective_peers`, `peer_copies`. What a node accepted by them may
rely on is at the end: its peers have pairwise different normalised URLs, none of them its own
`advertise_url` (`mem_peerSet`, `peerSet_pairwise`), and a `write_only` node waits for exactly `R - 1`
peer copies (`peerCopies_writeOnly`).
-/

set_option autoImplicit false

namespace NessieStore

/-- A base URL, as configured. -/
abbrev Url := List Char

/-- Trailing slashes do not tell two URLs apart. -/
def normUrl (u : Url) : Url := u.rdropWhile (· = '/')

theorem normUrl_normUrl (u : Url) : normUrl (normUrl u) = normUrl u :=
  List.rdropWhile_idempotent _ _

inductive CasMode
  | lru
  | writeOnly
deriving DecidableEq

/-- A `[cas] peers` entry; `durable` is what this node's operator believes of the peer. -/
structure CasPeer where
  url : Url
  durable : Bool
deriving DecidableEq

structure CasConfig where
  mode : CasMode
  backend : CasBackendKind
  path : Option String
  gcGraceSecs : Nat
  byteBudget : Option Nat
  peers : List CasPeer
  advertiseUrl : Option Url
  replicationFactor : Option Nat

namespace CasConfig

/-- `R`: the total copies of a write, this node included. -/
def copies (cfg : CasConfig) : Nat := cfg.replicationFactor.getD 2

def retentionPolicy (cfg : CasConfig) : Except String StorageMode :=
  match cfg.byteBudget, cfg.mode with
  | some budget, .lru => .ok (.lru budget cfg.gcGraceSecs)
  | some budget, .writeOnly => .ok (.writeOnly budget)
  | none, .lru => .error "[cas] mode = \"lru\" requires byte_budget"
  | none, .writeOnly => .error "[cas] mode = \"write_only\" requires byte_budget"

/-- The loop of `effective_peers`, with the URLs it has seen. -/
def effectivePeersFrom (me : Option Url) : List Url → List CasPeer → Except String (List CasPeer)
  | _, [] => .ok []
  | seen, p :: ps =>
    if normUrl p.url ∈ seen then
      .error (String.ofList ("[cas] peers lists ".toList ++ normUrl p.url ++ " twice".toList))
    else
      (effectivePeersFrom me (normUrl p.url :: seen) ps).map fun out =>
        if me = some (normUrl p.url) then out else ⟨normUrl p.url, p.durable⟩ :: out

/-- The peers to talk to: normalised, without this node itself. -/
def effectivePeers (cfg : CasConfig) : Except String (List CasPeer) :=
  effectivePeersFrom (cfg.advertiseUrl.map normUrl) [] cfg.peers

/-- The peer copies an acknowledgement waits for, `none` when it waits for none. -/
def peerCopies (cfg : CasConfig) : Except String (Option Nat) :=
  match cfg.mode with
  | .lru =>
    if cfg.replicationFactor.isNone then .ok none
    else .error "[cas] replication_factor applies only to mode = \"write_only\""
  | .writeOnly =>
    if cfg.copies = 0 then .error "[cas] replication_factor must be at least 1"
    else do
      let durable := (← cfg.effectivePeers).countP CasPeer.durable
      if cfg.copies - 1 ≤ durable then
        return if cfg.copies = 1 then none else some (cfg.copies - 1)
      else
        .error ("[cas] replication_factor = " ++ toString cfg.copies ++ " needs " ++
          toString (cfg.copies - 1) ++ " durable peers but only " ++ toString durable ++
          " are configured")

end CasConfig

/-- A node's `[cas]` section: on disk, with a budget of ten bytes. -/
def smallNode (mode : CasMode) (factor : Option Nat) (me : Url) (peers : List CasPeer) : CasConfig :=
  { mode, backend := .disk, path := some "/srv/cas", gcGraceSecs := 0, byteBudget := some 10, peers,
    advertiseUrl := some me, replicationFactor := factor }

/-- `PeerSet::with_tls` keeps the first peer of each normalised URL. -/
def peerSetFrom : List Url → List CasPeer → List CasPeer
  | _, [] => []
  | seen, p :: ps =>
    if normUrl p.url ∈ seen then peerSetFrom seen ps
    else p :: peerSetFrom (normUrl p.url :: seen) ps

def peerSet (peers : List CasPeer) : List CasPeer := peerSetFrom [] peers

/-! ## What an accepted configuration guarantees -/

/-- What the loop pushes is a listed peer, under its normalised URL, and not this node. -/
theorem CasConfig.mem_effectivePeersFrom {me : Option Url} {seen : List Url}
    {ps out : List CasPeer} (h : effectivePeersFrom me seen ps = .ok out) {q : CasPeer}
    (hq : q ∈ out) : (∃ p ∈ ps, q.url = normUrl p.url) ∧ me ≠ some q.url := by
  induction ps generalizing seen out with
  | nil => cases h; cases hq
  | cons p ps ih =>
    simp only [effectivePeersFrom] at h
    split at h
    · cases h
    · cases hrest : effectivePeersFrom me (normUrl p.url :: seen) ps with
      | error e => rw [hrest] at h; cases h
      | ok rest =>
        rw [hrest] at h
        cases h
        have hold : q ∈ rest → (∃ p' ∈ p :: ps, q.url = normUrl p'.url) ∧ me ≠ some q.url := by
          intro hmem
          obtain ⟨⟨p', hp', hurl⟩, hme⟩ := ih hrest hmem
          exact ⟨⟨p', List.mem_cons_of_mem _ hp', hurl⟩, hme⟩
        split at hq
        · exact hold hq
        · next hme =>
          rcases List.mem_cons.mp hq with rfl | hq
          · exact ⟨⟨p, List.mem_cons_self, rfl⟩, hme⟩
          · exact hold hq

theorem peerSetFrom_sublist (seen : List Url) (ps : List CasPeer) :
    (peerSetFrom seen ps).Sublist ps := by
  induction ps generalizing seen with
  | nil => exact .slnil
  | cons p ps ih =>
    unfold peerSetFrom
    split
    · exact (ih seen).cons p
    · exact (ih _).cons_cons p

/-- No two peers of a peer set name the same URL, and none names a URL seen before. -/
theorem peerSetFrom_pairwise (seen : List Url) (ps : List CasPeer) :
    (peerSetFrom seen ps).Pairwise (fun p q => normUrl p.url ≠ normUrl q.url) ∧
      ∀ p ∈ peerSetFrom seen ps, normUrl p.url ∉ seen := by
  induction ps generalizing seen with
  | nil => exact ⟨.nil, fun _ hp => absurd hp List.not_mem_nil⟩
  | cons p ps ih =>
    unfold peerSetFrom
    split
    · exact ih seen
    · next hnew =>
      obtain ⟨hpair, hseen⟩ := ih (normUrl p.url :: seen)
      refine ⟨.cons ?_ hpair, ?_⟩
      · intro q hq heq
        exact hseen q hq (heq ▸ List.mem_cons_self)
      · intro q hq
        rcases List.mem_cons.mp hq with rfl | hq
        · exact hnew
        · exact fun hmem => hseen q hq (List.mem_cons_of_mem _ hmem)

theorem peerSet_pairwise (ps : List CasPeer) :
    (peerSet ps).Pairwise fun p q => normUrl p.url ≠ normUrl q.url :=
  (peerSetFrom_pairwise [] ps).1

/-- A peer that a node talks to is a configured one, and not the node itself. -/
theorem CasConfig.mem_peerSet {cfg : CasConfig} {ps : List CasPeer}
    (h : cfg.effectivePeers = .ok ps) {q : CasPeer} (hq : q ∈ peerSet ps) :
    (∃ p ∈ cfg.peers, normUrl q.url = normUrl p.url) ∧
      cfg.advertiseUrl.map normUrl ≠ some (normUrl q.url) := by
  have hmem := mem_effectivePeersFrom h ((peerSetFrom_sublist [] ps).subset hq)
  obtain ⟨⟨p, hp, hurl⟩, hme⟩ := hmem
  have hnorm : normUrl q.url = q.url := by rw [hurl, normUrl_normUrl]
  rw [hnorm]
  exact ⟨⟨p, hp, hurl⟩, hme⟩

/-- A `write_only` node that is accepted waits for `R - 1` of its durable peers. -/
theorem CasConfig.peerCopies_writeOnly {cfg : CasConfig} (hm : cfg.mode = .writeOnly)
    {target : Option Nat} (h : cfg.peerCopies = .ok target) :
    ∃ ps, cfg.effectivePeers = .ok ps ∧ cfg.copies - 1 ≤ ps.countP CasPeer.durable ∧
      1 ≤ cfg.copies ∧ target = if cfg.copies = 1 then none else some (cfg.copies - 1) := by
  simp only [peerCopies, hm] at h
  split at h
  · cases h
  · next hpos =>
    cases hps : cfg.effectivePeers with
    | error e => simp [hps, bind, Except.bind] at h
    | ok ps =>
      simp only [hps, bind, Except.bind] at h
      split at h
      · next hle => cases h; exact ⟨ps, rfl, hle, Nat.pos_of_ne_zero hpos, rfl⟩
      · cases h

end NessieStore
