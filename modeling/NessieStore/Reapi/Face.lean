import NessieStore.Reapi.Boundary
import NessieStore.Swarm.Network

/-!
# The REAPI face

The calls of a REAPI client that decide whether it uploads a blob (`nessie-reapi`,
`services/bytestream.rs` and `services/cas.rs`), over the nodes of a swarm: `ByteStream.Write` and
`QueryWriteStatus`, `BatchUpdateBlobs`, `FindMissingBlobs`. What a call reads out of its request it
reads at once; each `has`, `put_keyed` and `ensure_replicated` on the node behind it is a step of its
own, and the swarm goes on in between. A `put_keyed` or `ensure_replicated` is a call on the node
(`ClientCall`) that the face waits for.

When the node is restarted the calls that it has not answered are lost; what it answered is out.
That a task of the blocking pool panics is left out, and so is `write_offset`, which the face does
not read.
-/

set_option autoImplicit false

namespace NessieStore

open Lib

namespace Reapi

/-! ## Requests and answers -/

/-- `bs::WriteRequest`. -/
structure WriteRequest where
  resourceName : Text
  finishWrite : Bool
  data : Bytes
deriving DecidableEq

inductive Compressor
  | identity
  | other (value : Int32)
deriving DecidableEq

/-- One item of a `BatchUpdateBlobsRequest`. -/
structure BatchItem where
  digest : Option Digest
  data : Bytes
  compressor : Compressor
deriving DecidableEq

inductive Request
  /-- `ByteStream.Write`; the stream of messages may break off with an error. -/
  | write (stream : List (Except Status WriteRequest))
  | queryWriteStatus (resourceName : Text)
  | batchUpdateBlobs (items : List BatchItem)
  | findMissingBlobs (blobDigests : List Digest)
deriving DecidableEq

/-- One item of a `BatchUpdateBlobsResponse`; its status is `rpc_status` of the outcome. -/
structure BatchResponse where
  digest : Option Digest
  outcome : Except Status Unit
deriving DecidableEq

inductive Answer
  | writeResponse (committedSize : Int64)
  | writeStatus (committedSize : Int64) (complete : Bool)
  | batchResponse (responses : List BatchResponse)
  | missing (missingBlobDigests : List Digest)
deriving DecidableEq

/-! ## Reading a request -/

section Reading

variable (debug : Text → String)

/-- The loop of `write_stream` over the messages. -/
def collect : List (Except Status WriteRequest) → Option ResourceName → Bytes →
    Except Status (Option ResourceName × Bytes)
  | [], resource, data => .ok (resource, data)
  | .error s :: _, _, _ => .error s
  | .ok msg :: stream, resource, data => do
    let resource ← if resource.isNone ∧ msg.resourceName ≠ [] then
        (ResourceName.parse debug msg.resourceName).map some
      else .ok resource
    if msg.finishWrite then .ok (resource, data ++ msg.data)
    else collect stream resource (data ++ msg.data)

/-- What `write_stream` is to store: the blob, its bytes, and the size it answers with. -/
def writeTarget (stream : List (Except Status WriteRequest)) :
    Except Status (NessieStore.Digest × Bytes × UInt64) := do
  let (resource, data) ← collect debug stream none []
  match resource with
  | some (.write _ _ sha256 size) =>
    if data.length ≠ size.toNat then
      .error (.bad ("wrote " ++ toString data.length ++ " bytes but the resource declared " ++
        toString size.toNat))
    else return (← nativeFor debug sha256 size, data, size)
  | some (.read ..) =>
    .error (.bad "write resource must be an uploads/\x7buuid\x7d/blobs/ path")
  | none => .error (.bad "write stream carried no resource_name")

/-- The blob that a `QueryWriteStatus` asks for. -/
def queryTarget (resourceName : Text) : Except Status (NessieStore.Digest × UInt64) := do
  match ← ResourceName.parse debug resourceName with
  | .read _ sha256 size | .write _ _ sha256 size => return (← nativeFor debug sha256 size, size)

/-- `update_one`, up to the `put_keyed`. -/
def itemTarget (item : BatchItem) : Except Status NessieStore.Digest :=
  if item.compressor ≠ .identity then
    .error (.bad "only the IDENTITY compressor is supported")
  else
    match item.digest with
    | none => .error (.bad "batch item is missing its digest")
    | some digest =>
      if digest.sizeBytes < 0 ∨ digest.sizeBytes.toUInt64.toNat ≠ item.data.length then
        .error (.bad ("data length " ++ toString item.data.length ++
          " does not match digest size_bytes " ++ toString digest.sizeBytes.toInt))
      else toNative debug digest

end Reading

/-! ## Calls -/

/-- How far a call is. -/
inductive Phase
  /-- `put_keyed` is the node's `k`th call. -/
  | writing (d : NessieStore.Digest) (size : UInt64) (k : Nat)
  | writeReady (d : NessieStore.Digest) (body : Bytes) (size : UInt64)
  /-- `QueryWriteStatus` is about to ask `has`. -/
  | probing (d : NessieStore.Digest) (size : UInt64)
  | present (d : NessieStore.Digest) (size : UInt64)
  /-- `ensure_replicated` is the node's `k`th call. -/
  | ensuring (d : NessieStore.Digest) (size : UInt64) (k : Nat)
  /-- The items left, and the responses so far. -/
  | updating (todo : List BatchItem) (done : List BatchResponse)
  | updatingOne (item : BatchItem) (d : NessieStore.Digest) (k : Nat) (todo : List BatchItem)
      (done : List BatchResponse)
  /-- The digests left, and those found missing. -/
  | finding (todo : List Digest) (missing : List Digest)
  | answered (a : Answer)
  | refused (s : Status)
  /-- The node went down. -/
  | lost
deriving DecidableEq

structure Config where
  maxBatchTotalSizeBytes : Int64
  /-- How `{:?}` writes a string. -/
  debug : Text → String

variable (cfg : Config)

/-- A call begins. -/
def Request.enter : Request → Phase
  | .write stream =>
    match writeTarget cfg.debug stream with
    | .ok (d, body, size) => .writeReady d body size
    | .error s => .refused s
  | .queryWriteStatus resourceName =>
    match queryTarget cfg.debug resourceName with
    | .ok (d, size) => .probing d size
    | .error s => .refused s
  | .batchUpdateBlobs items =>
    let total : Nat := (items.map (·.data.length)).sum
    if (total : Int) > cfg.maxBatchTotalSizeBytes.toInt then
      .refused (.new .resourceExhausted ("batch of " ++ toString total ++
        " bytes exceeds max_batch_total_size_bytes " ++ toString cfg.maxBatchTotalSizeBytes.toInt))
    else .updating items []
  | .findMissingBlobs blobDigests => .finding blobDigests []

/-- What the node behind the face is asked for. -/
inductive Ask
  | nothing
  | putKeyed (d : NessieStore.Digest) (body : Bytes)
  | ensureReplicated (d : NessieStore.Digest)
deriving DecidableEq

inductive Event
  | next
  /-- `has` failed on the node. -/
  | fail (message : String)
deriving DecidableEq

/-- What the node's `k`th call returned, if it has. -/
def outcome (n : SwarmNode) (k : Nat) : Option (Except BackendError NessieStore.Digest) :=
  match n.calls[k]? with
  | some ⟨_, .returned out⟩ => some out
  | _ => none

/-- The phase once the node has returned. -/
def afterCall (out : Except BackendError NessieStore.Digest) (phase : Phase) : Phase :=
  match out with
  | .ok _ => phase
  | .error e => .refused (.backend e)

/-- One step of a call over node `n`; what the call asks for becomes the node's next call. -/
def Phase.step (n : SwarmNode) : Phase → Event → Option (Phase × Ask)
  | .writeReady d body size, .next => some (.writing d size n.calls.length, .putKeyed d body)
  | .writing _ size k, .next =>
    (outcome n k).map fun out => (afterCall out (.answered (.writeResponse size.toInt64)), .nothing)
  | .probing d size, .next =>
    if n.has d then some (.present d size, .nothing)
    else some (.answered (.writeStatus 0 false), .nothing)
  | .probing _ _, .fail message => some (.refused (.backend (.internal message)), .nothing)
  | .present d size, .next => some (.ensuring d size n.calls.length, .ensureReplicated d)
  | .ensuring _ size k, .next =>
    (outcome n k).map fun out => (afterCall out (.answered (.writeStatus size.toInt64 true)), .nothing)
  | .updating [] done, .next => some (.answered (.batchResponse done), .nothing)
  | .updating (item :: todo) done, .next =>
    match itemTarget cfg.debug item with
    | .ok d => some (.updatingOne item d n.calls.length todo done, .putKeyed d item.data)
    | .error s => some (.updating todo (done ++ [⟨item.digest, .error s⟩]), .nothing)
  | .updatingOne item _ k todo done, .next =>
    (outcome n k).map fun out =>
      let status := match out with
        | .ok _ => .ok ()
        | .error e => .error (.backend e)
      (.updating todo (done ++ [⟨item.digest, status⟩]), .nothing)
  | .finding [] missing, .next => some (.answered (.missing missing), .nothing)
  | .finding (r :: todo) missing, .next =>
    match toNative cfg.debug r with
    | .ok d => some (.finding todo (if n.has d then missing else missing ++ [r]), .nothing)
    | .error s => some (.refused s, .nothing)
  | .finding (r :: _) _, .fail message =>
    -- the digest is read before the store is asked
    match toNative cfg.debug r with
    | .ok _ => some (.refused (.backend (.internal message)), .nothing)
    | .error _ => none
  | _, _ => none

/-- A call of a client on the face of one node. -/
structure Call where
  node : Nat
  request : Request
  phase : Phase
deriving DecidableEq

/-- The node went down: what it has not answered, it never will. -/
def Call.crash (c : Call) : Call :=
  match c.phase with
  | .answered _ | .refused _ => c
  | _ => { c with phase := .lost }

/-! ## Faces over a swarm -/

/-- What the face asks for becomes a call on the node. A `put_keyed` is the node's own, of a body that
is there already. -/
def Ask.begin (n : SwarmNode) : Ask → SwarmNode
  | .nothing => n
  | .putKeyed d body =>
    { n with
      sys := { n.sys with puts := n.sys.puts ++ [.keyed ⟨d, .body body, .entered⟩] }
      calls := n.calls ++ [⟨.putKeyed d, .writing n.sys.puts.length⟩] }
  | .ensureReplicated d => n.accept (.ensureReplicated d)

/-- A swarm, and the calls on its nodes' faces. -/
structure Faces where
  swarm : Swarm
  calls : List Call

inductive Act
  /-- The swarm moves: its stores, its own calls, the network, a restart. -/
  | swarm (a : SwarmAct)
  | call (node : Nat) (request : Request)
  | step (m : Nat) (ev : Event)

namespace Faces

variable (H : HashFn) (resolve : Url → Option Nat)

def step (f : Faces) : Act → Option Faces
  | .swarm a =>
    (Swarm.step H resolve f.swarm a).map fun swarm =>
      { swarm, calls := f.calls.map fun c => if a.restarts = some c.node then c.crash else c }
  | .call node request => some { f with calls := f.calls ++ [⟨node, request, request.enter cfg⟩] }
  | .step m ev =>
    f.calls[m]?.bind fun c => f.swarm[c.node]?.bind fun n =>
      (c.phase.step cfg n ev).map fun r =>
        { swarm := f.swarm.set c.node (r.2.begin n)
          calls := f.calls.set m { c with phase := r.1 } }

end Faces

end Reapi

end NessieStore
