import Mathlib.Algebra.Ring.Nat
import NessieStore.Core.Digest

/-!
# The backend contract

The values that cross the backend traits (`nessie-backend-core`, `cas.rs`, `ids.rs`, `attestation.rs`
and `error.rs`). The error of a subprocess stands beside these where one is run (`ZfsError`).
-/

set_option autoImplicit false

namespace NessieStore

/-- A volume's identity; only equality is used. -/
structure VolumeUuid where
  id : Nat
deriving DecidableEq

/-- A snapshot's identity. -/
structure SnapshotUuid where
  id : Nat
deriving DecidableEq

/-- An opaque signer identity. -/
structure SignerId where
  bytes : Bytes
deriving DecidableEq

inductive BackendError
  | volumeNotFound (uuid : VolumeUuid)
  | snapshotNotFound (volume : VolumeUuid) (snapshot : SnapshotUuid)
  | blobNotFound (digest : Digest)
  | attestationUnverified (signer : SignerId)
  | actionResultConflict (action : Digest)
  | volumeExists (name : List Char)
  | snapshotExists (volume : VolumeUuid) (name : List Char)
  | featureNotSupported (capability : String)
  | invalidArgument (message : String)
  | capacityExceeded (used incoming capacity : Nat)
  | underreplicated (confirmed required : Nat)
  | internal (message : String)
deriving DecidableEq

/-- The largest `u64`. -/
def u64Max : Nat := 2 ^ 64 - 1

/-- `u64::saturating_add`. -/
def saturatingAdd (a b : Nat) : Nat := min (a + b) u64Max

theorem saturatingAdd_le (a b : Nat) : saturatingAdd a b ≤ a + b := Nat.min_le_left _ _

/-- One locally held replica. -/
structure LocalBlob where
  digest : Digest
  sizeBytes : Nat
deriving DecidableEq

/-- The name of a quarantined copy: the source writes it `<algo>/<hex>.<slot>`. -/
structure QuarantineId where
  digest : Digest
  slot : Nat
deriving DecidableEq

/-- A blob moved aside. -/
structure QuarantinedBlob where
  id : QuarantineId
  digest : Digest
  sizeBytes : Nat
deriving DecidableEq

end NessieStore
