import NessieStore.Core.Cas
import NessieStore.Lib.Ledger
import NessieStore.Volume.Descriptor

/-!
# Peers, relationships and transfers

`SnapMirrorStore` (`nessie-store`, `snapmirror.rs`): three maps behind one mutex. The handlers of
peers and relationships hold it from their first read to their last write and are functions here.
`create_transfer` takes it several times; each of its lock sections is a function, and
`NessieStore.Mirror.Transfer` strings them together.

A request body is given by the fields that a handler reads from it, and a response by its status and
the record it carries; how either is written as JSON is left out, and so are the reads (`list_*`,
`get_*`). Uuids, timestamps and the order in which a map is listed are arguments.
-/

set_option autoImplicit false

namespace NessieStore

open Lib

structure Peer where
  uuid : Text
  name : Text
  address : Text
  token : Text
deriving DecidableEq

structure Relationship where
  uuid : Text
  sourcePath : Text
  destinationPath : Text
  /-- Empty when no peer was registered. -/
  peerUuid : Text
  policy : Text
  state : Text
  healthy : Bool
  /-- The last snapshot that was transferred. -/
  base : Option Text
  transferInProgress : Bool
deriving DecidableEq

/-- A transfer record. -/
structure Transfer where
  uuid : Text
  state : Text
  bytesTransferred : Nat
  snapshot : Text
  endTime : Text
deriving DecidableEq

/-- `Inner`. -/
structure SnapMirrorStore where
  peers : Map Text Peer
  relationships : Map Text Relationship
  transfers : Map Text (List Transfer)

inductive ApiResponse
  | error (status : Nat) (code target message : String)
  | deleted
  | peer (p : Peer)
  | relationship (r : Relationship)
  | transfer (uuid : Text) (t : Transfer)
deriving DecidableEq

/-- `vol_of`: the volume of an ONTAP `svm:vol` path. -/
def volOf (path : Text) : Text := (splitOnce ':' path).elim path Prod.snd

/-- What `create_peer` reads from its body. -/
structure PeerBody where
  name : Option Text
  ipAddress : Option Text
  /-- `remote.ip_addresses[0]`. -/
  remoteIpAddress : Option Text
  authenticationPassphrase : Option Text
  passphrase : Option Text
deriving DecidableEq

/-- What `create_relationship` reads from its body. -/
structure RelationshipBody where
  sourcePath : Option Text
  destinationPath : Option Text
  policyName : Option Text
  sourceClusterName : Option Text
deriving DecidableEq

/-- What `patch_relationship` reads from its body. -/
structure RelationshipPatch where
  state : Option Text
  policyName : Option Text
deriving DecidableEq

namespace SnapMirrorStore

def new : SnapMirrorStore := ⟨∅, ∅, ∅⟩

def relationshipNotFound (uuid : Text) : ApiResponse :=
  .error 404 "404" "snapmirror" ("relationship " ++ String.ofList uuid ++ " not found")

def peerNotFound (uuid : Text) : ApiResponse :=
  .error 404 "404" "peer" ("peer " ++ String.ofList uuid ++ " not found")

/-! ## Peers and relationships -/

def createPeer (s : SnapMirrorStore) (fresh freshToken : Text) (body : PeerBody) :
    ApiResponse × SnapMirrorStore :=
  let name := body.name.getD []
  let address := (body.ipAddress.or body.remoteIpAddress).getD []
  if name = [] ∨ address = [] then
    (.error 400 "400" "peer" "peer name and ip_address are required", s)
  else
    -- an empty passphrase is ignored, so that it cannot authorize a blank token
    let token := ((body.authenticationPassphrase.or body.passphrase).filter (· ≠ [])).getD freshToken
    let peer : Peer := ⟨fresh, name, address, token⟩
    (.peer peer, { s with peers := s.peers.insert fresh peer })

def deletePeer (s : SnapMirrorStore) (uuid : Text) : ApiResponse × SnapMirrorStore :=
  if uuid ∉ s.peers then (peerNotFound uuid, s)
  else if ∃ r ∈ s.relationships.keys, (s.relationships.lookup r).any (·.peerUuid = uuid) then
    (.error 409 "409" "peer" "peer is referenced by a SnapMirror relationship", s)
  else (.deleted, { s with peers := s.peers.erase uuid })

/-- The peer of a new relationship: one of the wanted name, else the first that is listed. -/
def choosePeer (listing : List (Text × Peer)) (wanted : Option Text) : Text :=
  let byName := wanted.bind fun name => (listing.find? (·.2.name = name)).map (·.2.uuid)
  (byName.or (listing.head?.map (·.2.uuid))).getD []

/-- `listing` is the order in which the peers are listed. -/
def createRelationship (s : SnapMirrorStore) (fresh : Text) (listing : List (Text × Peer))
    (body : RelationshipBody) : ApiResponse × SnapMirrorStore :=
  let sourcePath := body.sourcePath.getD []
  let destinationPath := body.destinationPath.getD []
  if sourcePath = [] ∨ destinationPath = [] then
    (.error 400 "400" "snapmirror" "source.path and destination.path are required", s)
  else
    let rel : Relationship :=
      { uuid := fresh
        sourcePath
        destinationPath
        peerUuid := choosePeer listing body.sourceClusterName
        policy := body.policyName.getD "MirrorAllSnapshots".toList
        state := "snapmirrored".toList
        healthy := true
        base := none
        transferInProgress := false }
    (.relationship rel, { s with relationships := s.relationships.insert fresh rel })

/-- `if let Some(rel) = relationships.get_mut(uuid)`. -/
def updateRelationship (s : SnapMirrorStore) (uuid : Text) (f : Relationship → Relationship) :
    SnapMirrorStore :=
  match s.relationships.lookup uuid with
  | none => s
  | some rel => { s with relationships := s.relationships.insert uuid (f rel) }

def applyPatch (body : RelationshipPatch) (rel : Relationship) : Relationship :=
  let rel := match body.state with
    | none => rel
    | some state => { rel with state, healthy := state ≠ "broken_off".toList }
  { rel with policy := body.policyName.getD rel.policy }

def patchRelationship (s : SnapMirrorStore) (uuid : Text) (body : RelationshipPatch) :
    ApiResponse × SnapMirrorStore :=
  match s.relationships.lookup uuid with
  | none => (relationshipNotFound uuid, s)
  | some rel => (.relationship (applyPatch body rel), s.updateRelationship uuid (applyPatch body))

/-- The records of the relationship go with it. -/
def deleteRelationship (s : SnapMirrorStore) (uuid : Text) : ApiResponse × SnapMirrorStore :=
  match s.relationships.lookup uuid with
  | none => (relationshipNotFound uuid, s)
  | some _ =>
    (.deleted,
      { s with relationships := s.relationships.erase uuid, transfers := s.transfers.erase uuid })

/-! ## The lock sections of a transfer -/

/-- `g.transfers.get(&uuid)`, no entry read as no records. -/
def records (s : SnapMirrorStore) (uuid : Text) : List Transfer := (s.transfers.lookup uuid).getD []

/-- `g.transfers.entry(uuid).or_default().push(transfer)`. -/
def pushTransfer (s : SnapMirrorStore) (uuid : Text) (t : Transfer) : SnapMirrorStore :=
  { s with transfers := s.transfers.insert uuid (s.records uuid ++ [t]) }

/-- The first section: take the flag, and read the source path and the number of this transfer. -/
def beginTransfer (s : SnapMirrorStore) (uuid : Text) :
    Except ApiResponse (Text × Nat × SnapMirrorStore) :=
  match s.relationships.lookup uuid with
  | none => .error (relationshipNotFound uuid)
  | some rel =>
    if rel.transferInProgress then
      .error (.error 409 "409" "snapmirror"
        "a transfer is already in progress for this relationship")
    else
      .ok (rel.sourcePath, (s.records uuid).length + 1,
        s.updateRelationship uuid fun rel => { rel with transferInProgress := true })

/-- The snapshot of a relationship's `seq`th transfer. -/
def snapName (uuid : Text) (seq : Nat) : Text :=
  "snapmirror.".toList ++ uuid.take 8 ++ '.' :: Nat.toDigits 10 seq

/-- Both failed exits: mark the relationship if it is there, and record the failure either way. -/
def failTransfer (s : SnapMirrorStore) (uuid : Text) (t : Transfer) : SnapMirrorStore :=
  (s.updateRelationship uuid fun rel => { rel with healthy := false }).pushTransfer uuid t

/-- Where to stream to: destination volume, address, token and base. -/
structure Target where
  destVol : Text
  address : Text
  token : Text
  base : Option Text
deriving DecidableEq

def target (s : SnapMirrorStore) (uuid : Text) : Option Target :=
  (s.relationships.lookup uuid).bind fun rel =>
    ((s.peers.lookup rel.peerUuid).filter (·.address ≠ [])).map fun p =>
      ⟨volOf rel.destinationPath, p.address, p.token, rel.base⟩

/-- An operator's state is not overwritten. -/
def settle (rel : Relationship) : Relationship :=
  if rel.state = "broken_off".toList ∨ rel.state = "paused".toList ∨ rel.state = "quiesced".toList then
    rel
  else { rel with state := "snapmirrored".toList, healthy := true }

/-- The section after the peer took the stream. -/
def advanceBase (s : SnapMirrorStore) (uuid snapshot : Text) : SnapMirrorStore :=
  s.updateRelationship uuid fun rel => { settle rel with base := some snapshot }

/-- The section of a transfer without a reachable peer. -/
def settleOnly (s : SnapMirrorStore) (uuid : Text) : SnapMirrorStore :=
  s.updateRelationship uuid settle

/-- The last section: record the success, unless the relationship is gone. -/
def recordTransfer (s : SnapMirrorStore) (uuid : Text) (t : Transfer) :
    ApiResponse × SnapMirrorStore :=
  if uuid ∈ s.relationships then (.transfer uuid t, s.pushTransfer uuid t)
  else
    (.error 404 "404" "snapmirror"
      ("relationship " ++ String.ofList uuid ++ " was deleted during the transfer"), s)

/-- `TransferGuard::drop`. -/
def dropGuard (s : SnapMirrorStore) (uuid : Text) : SnapMirrorStore :=
  s.updateRelationship uuid fun rel => { rel with transferInProgress := false }

/-! ## What the sections leave alone -/

section

variable (rel : Relationship)

/-- Settling writes the state and the health, and nothing else. -/
theorem settle_eq : ∃ state healthy, settle rel = { rel with state, healthy } := by
  unfold settle
  split
  · exact ⟨rel.state, rel.healthy, rfl⟩
  · exact ⟨_, _, rfl⟩

@[simp] theorem settle_peerUuid : (settle rel).peerUuid = rel.peerUuid := by
  obtain ⟨_, _, h⟩ := settle_eq rel
  rw [h]

@[simp] theorem settle_sourcePath : (settle rel).sourcePath = rel.sourcePath := by
  obtain ⟨_, _, h⟩ := settle_eq rel
  rw [h]

@[simp] theorem settle_destinationPath : (settle rel).destinationPath = rel.destinationPath := by
  obtain ⟨_, _, h⟩ := settle_eq rel
  rw [h]

@[simp] theorem settle_base : (settle rel).base = rel.base := by
  obtain ⟨_, _, h⟩ := settle_eq rel
  rw [h]

@[simp] theorem settle_transferInProgress :
    (settle rel).transferInProgress = rel.transferInProgress := by
  obtain ⟨_, _, h⟩ := settle_eq rel
  rw [h]

end

section

variable (s : SnapMirrorStore) (uuid : Text) (f : Relationship → Relationship)

theorem lookup_updateRelationship (v : Text) :
    (s.updateRelationship uuid f).relationships.lookup v =
      if v = uuid then (s.relationships.lookup v).map f else s.relationships.lookup v := by
  unfold updateRelationship
  split
  · next hnone =>
    split
    · next hv => rw [hv, hnone]; rfl
    · rfl
  · next rel hrel =>
    rw [Map.lookup_insert_eq]
    split
    · next hv => rw [hv, hrel]; rfl
    · rfl

@[simp] theorem mem_updateRelationship (v : Text) :
    v ∈ (s.updateRelationship uuid f).relationships ↔ v ∈ s.relationships := by
  simp only [← Finmap.lookup_isSome, lookup_updateRelationship]
  split <;> simp

@[simp] theorem updateRelationship_peers : (s.updateRelationship uuid f).peers = s.peers := by
  unfold updateRelationship
  split <;> rfl

@[simp] theorem updateRelationship_transfers :
    (s.updateRelationship uuid f).transfers = s.transfers := by
  unfold updateRelationship
  split <;> rfl

@[simp] theorem updateRelationship_records (v : Text) :
    (s.updateRelationship uuid f).records v = s.records v := by
  unfold records
  rw [updateRelationship_transfers]

theorem records_pushTransfer (t : Transfer) (v : Text) :
    (s.pushTransfer uuid t).records v = if v = uuid then s.records v ++ [t] else s.records v := by
  unfold pushTransfer records
  rw [Map.lookup_insert_eq]
  split
  · next hv => rw [hv]; rfl
  · rfl

end

/-- A transfer begins when the flag is down, and is numbered behind the records. -/
theorem begin_ok {s : SnapMirrorStore} {uuid : Text} {begun : Text × Nat × SnapMirrorStore}
    (h : s.beginTransfer uuid = .ok begun) :
    ∃ rel, s.relationships.lookup uuid = some rel ∧ rel.transferInProgress = false ∧
      begun = (rel.sourcePath, (s.records uuid).length + 1,
        s.updateRelationship uuid fun rel => { rel with transferInProgress := true }) := by
  unfold beginTransfer at h
  split at h
  · cases h
  · next rel hrel =>
    split at h
    · cases h
    · next hflag =>
      cases h
      exact ⟨rel, hrel, Bool.eq_false_iff.mpr hflag, rfl⟩

end SnapMirrorStore

end NessieStore
