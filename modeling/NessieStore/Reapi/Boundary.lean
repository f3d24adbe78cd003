import NessieStore.Core.Cas
import NessieStore.Core.Text

/-!
# What a REAPI client sends

Digests and resource names as they arrive on the wire (`nessie-reapi`, `boundary.rs` and
`resource.rs`), and the gRPC status of a refusal (`status.rs`). A REAPI digest is the hex of a
SHA-256 and a size; the store's own digest has no size, so two REAPI digests may name one blob.

How `{:?}` writes a string is a parameter. Where a message ends in another error's text, the status
keeps that error.
-/

set_option autoImplicit false

namespace NessieStore.Reapi

/-! ## Statuses -/

/-- `tonic::Code`, those that this face uses. -/
inductive Code
  | ok
  | invalidArgument
  | notFound
  | permissionDenied
  | resourceExhausted
  | failedPrecondition
  | unimplemented
  | internal
  | unavailable
deriving DecidableEq

inductive Status
  | new (code : Code) (message : String)
  /-- `invalid sha2-256 digest: {e}`. -/
  | invalidDigest (e : DigestParseError)
  /-- `status_from_backend`. -/
  | backend (e : BackendError)
deriving DecidableEq

namespace Status

/-- The code of `status_from_backend`. -/
def backendCode : BackendError → Code
  | .blobNotFound _ | .volumeNotFound _ => .notFound
  | .invalidArgument _ => .invalidArgument
  | .featureNotSupported _ => .unimplemented
  | .actionResultConflict _ => .failedPrecondition
  | .attestationUnverified _ => .permissionDenied
  | .capacityExceeded .. => .resourceExhausted
  | .underreplicated .. => .unavailable
  | _ => .internal

def code : Status → Code
  | .new code _ => code
  | .invalidDigest _ => .invalidArgument
  | .backend e => backendCode e

/-- `Status::invalid_argument`. -/
def bad (message : String) : Status := .new .invalidArgument message

end Status

/-! ## Digests -/

/-- `reapi::Digest`. -/
structure Digest where
  hash : Text
  sizeBytes : Int64
deriving DecidableEq

def isLowerHex (c : Char) : Bool := ('0' ≤ c ∧ c ≤ '9') ∨ ('a' ≤ c ∧ c ≤ 'f')

/-- The test on a hash: 64 lowercase hex digits. -/
def isHash (s : Text) : Bool := s.length = 64 ∧ s.all isLowerHex

variable (debug : Text → String)

/-- `Sha256Boundary::to_native`. -/
def toNative (r : Digest) : Except Status NessieStore.Digest :=
  if isHash r.hash then
    match NessieStore.Digest.ofText ("sha2-256:".toList ++ r.hash) with
    | .ok d => .ok d
    | .error e => .error (.invalidDigest e)
  else
    .error (.bad ("REAPI digest hash must be 64 lowercase-hex characters, got " ++ debug r.hash))

variable {debug} in
/-- A REAPI digest is read as the SHA-256 digest whose hex its hash is. -/
theorem toNative_eq_ok_iff {r : Digest} {d : NessieStore.Digest} :
    toNative debug r = .ok d ↔ isHash r.hash = true ∧ d.algo = .sha256 ∧ Hex.encode d.bytes = r.hash := by
  unfold toNative
  split
  · next hhash =>
    have hlower : ∀ c ∈ r.hash, Hex.isLower c = true :=
      List.all_eq_true.mp (of_decide_eq_true hhash).2
    rw [← NessieStore.Digest.ofText_sha256 hlower, and_iff_right hhash]
    cases NessieStore.Digest.ofText ("sha2-256:".toList ++ r.hash) <;> simp
  · next hhash => exact iff_of_false (by simp) fun h => hhash h.1

theorem isHash_encode {d : NessieStore.Digest} (h : d.algo = .sha256) :
    isHash (Hex.encode d.bytes) = true := by
  refine decide_eq_true ⟨?_, List.all_eq_true.mpr fun c hc => Hex.isLower_of_mem_encode hc⟩
  rw [Hex.length_encode, d.len, h]
  rfl

/-- `native_for`. -/
def nativeFor (sha256 : Text) (size : UInt64) : Except Status NessieStore.Digest :=
  toNative debug ⟨sha256, size.toInt64⟩

/-! ## Resource names -/

inductive ResourceName
  | read (instanceName sha256 : Text) (size : UInt64)
  | write (instanceName uuid sha256 : Text) (size : UInt64)
deriving DecidableEq

namespace ResourceName

def parseHash (s : Text) : Except Status Text :=
  if isHash s then .ok s
  else .error (.bad ("resource hash must be 64 lowercase-hex chars, got " ++ debug s))

def parseSize (s : Text) : Except Status UInt64 :=
  match parseU64 s with
  | some n => .ok n
  | none => .error (.bad ("resource size must be a non-negative integer, got " ++ debug s))

/-- `segs.get(i).ok_or_else(..)`. -/
def segment (segs : List Text) (i : Nat) (missing : String) : Except Status Text :=
  match segs[i]? with
  | some s => .ok s
  | none => .error (.bad missing)

/-- The write form, with `uploads` at `up`. -/
def parseWrite (segs : List Text) (up : Nat) : Except Status ResourceName := do
  let uuid ← segment segs (up + 1) "missing upload uuid"
  let marker ← segment segs (up + 2) "missing 'blobs' after uploads/\x7buuid\x7d"
  if marker = "compressed-blobs".toList then
    .error (.bad "compressed-blobs are not supported in v0")
  else if marker ≠ "blobs".toList then
    .error (.bad "expected 'blobs' after uploads/\x7buuid\x7d")
  else
    let hash ← segment segs (up + 3) "missing hash"
    let size ← segment segs (up + 4) "missing size"
    return .write (['/'].intercalate (segs.take up)) uuid (← parseHash debug hash)
      (← parseSize debug size)

/-- The read form, with `blobs` at `bp`. -/
def parseRead (segs : List Text) (bp : Nat) : Except Status ResourceName := do
  let hash ← segment segs (bp + 1) "missing hash"
  let size ← segment segs (bp + 2) "missing size"
  return .read (['/'].intercalate (segs.take bp)) (← parseHash debug hash) (← parseSize debug size)

def parse (name : Text) : Except Status ResourceName :=
  let segs := name.splitOn '/'
  match segs.findIdx? (· = "uploads".toList) with
  | some up => parseWrite debug segs up
  | none =>
    match segs.findIdx? (· = "blobs".toList) with
    | some bp => parseRead debug segs bp
    | none =>
      if segs.contains "compressed-blobs".toList then
        .error (.bad "compressed-blobs are not supported in v0")
      else .error (.bad "resource name must contain 'blobs' or 'uploads/\x7buuid\x7d/blobs'")

end ResourceName

end NessieStore.Reapi
