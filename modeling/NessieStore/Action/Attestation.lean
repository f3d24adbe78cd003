import Mathlib.Data.Finset.Image
import NessieStore.Core.ActionResult
import NessieStore.Core.ByText
import NessieStore.Lib.Ledger

/-!
# The action cache

`MemActionCache` (`nessie-backend-mem`) over the attestations of `nessie-backend-core`: for each
action a set of attestations that only grows, each verified before it is inserted, and an answer only
once `k` distinct signers back one result. The answer's body is read from a content-addressed store.

Signatures are other people's code, so the verifier is a parameter of the cache, and so is what the
store answers when it is asked for a body.
-/

set_option autoImplicit false

namespace NessieStore

open Lib

/-- Opaque signature bytes. -/
structure Signature where
  bytes : Bytes
deriving DecidableEq

/-- A signer asserts that the action it is filed under produced `result`. -/
structure Attestation where
  signer : SignerId
  result : Digest
deriving DecidableEq

structure SignedAttestation where
  attestation : Attestation
  signature : Signature
deriving DecidableEq

/-- `STMT_DOMAIN`. -/
def statementDomain : Bytes := utf8 "nessie.Attestation.v1\x00".toList

/-- The message that a signer signs. -/
def statementSigningBytes (action result : Digest) : Bytes :=
  statementDomain ++ action.toMultihashBytes ++ result.toMultihashBytes

/-- A message is the statement of one action and one result. -/
theorem statementSigningBytes_inj {action action' result result' : Digest}
    (h : statementSigningBytes action result = statementSigningBytes action' result') :
    action = action' ∧ result = result' := by
  have hlen : ∀ d : Digest, d.toMultihashBytes.length = 34 := fun d => by
    simp only [Digest.toMultihashBytes, List.length_cons, d.len]
    cases d.algo <;> rfl
  simp only [statementSigningBytes, List.append_assoc] at h
  obtain ⟨haction, hresult⟩ :=
    List.append_inj (List.append_cancel_left h) ((hlen action).trans (hlen action').symm)
  exact ⟨Digest.toMultihashBytes_injective haction, Digest.toMultihashBytes_injective hresult⟩

/-- The forms of a digest: both are read back, the bytes are the only ones that are read as the
digest, the texts that are read as it are its own in any case of the letters, and a signed message is
the statement of one action and one result. -/
theorem digest_forms_exact :
    (∀ d : Digest, Digest.ofMultihashBytes d.toMultihashBytes = .ok d ∧
      Digest.ofText d.toText = .ok d) ∧
    (∀ (b : Bytes) (d : Digest), Digest.ofMultihashBytes b = .ok d → d.toMultihashBytes = b) ∧
    (∀ (s : List Char) (d : Digest), Digest.ofText s = .ok d ↔
      ∃ hex : List Char, s = d.algo.name ++ ':' :: hex ∧ hex.length = 64 ∧
        (∀ c ∈ hex, Hex.isHexDigit c = true) ∧ hex.map Char.toLower = Hex.encode d.bytes) ∧
    Function.Injective fun p : Digest × Digest => statementSigningBytes p.1 p.2 := by
  refine ⟨?_, ?_, ?_, ?_⟩
  · intro d
    exact ⟨Digest.ofMultihashBytes_toMultihashBytes d, Digest.ofText_toText d⟩
  · intro b d h
    exact (Digest.ofMultihashBytes_exact h).symm
  · intro s d
    rw [Digest.ofText_eq_ok_iff]
    constructor
    · rintro ⟨hex, rfl, hhex⟩
      have hlower := Hex.decode_eq_some_iff.mp hhex
      have hlen : hex.length = 64 := by
        rw [← List.length_map Char.toLower, hlower, Hex.length_encode, d.len]
        cases d.algo <;> rfl
      exact ⟨hex, rfl, hlen, Hex.isHexDigit_of_decode hhex, hlower⟩
    · rintro ⟨hex, rfl, -, -, hlower⟩
      exact ⟨hex, rfl, Hex.decode_eq_some_iff.mpr hlower⟩
  · rintro ⟨action, result⟩ ⟨action', result'⟩ h
    obtain ⟨rfl, rfl⟩ := statementSigningBytes_inj h
    rfl

/-! ## The attestations of one action -/

/-- `AttestationSet`: it has no operation that removes. -/
abbrev AttestationSet := Finset Attestation

/-- The outcome of resolving an action's attestations. -/
inductive AcResolution
  | unconfirmed
  | confirmed (result : Digest)
  | conflicting (results : Finset Digest)

namespace AttestationSet

/-- The distinct signers that back a result. -/
def signersFor (atts : AttestationSet) (result : Digest) : Finset SignerId :=
  (atts.filter fun a => a.result = result).image Attestation.signer

def isConfirmed (atts : AttestationSet) (result : Digest) (k : Nat) : Bool :=
  k ≤ (signersFor atts result).card

/-- The results that at least `k` signers back. -/
def confirmed (atts : AttestationSet) (k : Nat) : Finset Digest :=
  (atts.image Attestation.result).filter fun r => isConfirmed atts r k

def resolve (atts : AttestationSet) (k : Nat) : AcResolution :=
  match byText (confirmed atts k) with
  | [] => .unconfirmed
  | [result] => .confirmed result
  | _ => .conflicting (confirmed atts k)

variable {set : AttestationSet} {k : Nat}

theorem resolve_eq_confirmed_iff {result : Digest} :
    resolve set k = .confirmed result ↔ confirmed set k = {result} := by
  have hcard := length_byText (confirmed set k)
  unfold resolve
  split
  · next hnone =>
    rw [hnone] at hcard
    refine iff_of_false (by simp) fun h => ?_
    rw [h] at hcard
    cases hcard
  · next r hone =>
    have hsingle : confirmed set k = {r} := by
      ext r'
      rw [← mem_byText, hone, List.mem_singleton, Finset.mem_singleton]
    rw [hsingle, AcResolution.confirmed.injEq, Finset.singleton_inj]
  · next hmany hmany' =>
    refine iff_of_false (by simp) fun h => ?_
    rw [h, Finset.card_singleton] at hcard
    obtain ⟨r, hr⟩ := List.length_eq_one_iff.mp hcard
    exact hmany' r (h ▸ hr)

theorem resolve_eq_conflicting_iff {results : Finset Digest} :
    resolve set k = .conflicting results ↔ confirmed set k = results ∧ 2 ≤ results.card := by
  have hcard := length_byText (confirmed set k)
  unfold resolve
  split
  · next hnone =>
    rw [hnone] at hcard
    refine iff_of_false (by simp) ?_
    rintro ⟨rfl, htwo⟩
    rw [← hcard] at htwo
    simp at htwo
  · next r hone =>
    rw [hone] at hcard
    refine iff_of_false (by simp) ?_
    rintro ⟨rfl, htwo⟩
    rw [← hcard] at htwo
    simp at htwo
  · next hmany hmany' =>
    rw [AcResolution.conflicting.injEq, iff_self_and]
    rintro rfl
    rw [← hcard]
    match h : byText (confirmed set k) with
    | [] => exact absurd h hmany
    | [r] => exact absurd h (hmany' r)
    | _ :: _ :: _ => simp

end AttestationSet

/-! ## The cache -/

structure MemActionCache where
  verifier : SignerId → Bytes → Signature → Bool
  k : Nat
  /-- `NonZeroUsize`. -/
  k_pos : 0 < k
  entries : Map Digest AttestationSet

namespace MemActionCache

/-- `attest_action_result`: verified before it is inserted. -/
def attestActionResult (c : MemActionCache) (action : Digest) (signed : SignedAttestation) :
    Except BackendError Unit × MemActionCache :=
  let message := statementSigningBytes action signed.attestation.result
  if c.verifier signed.attestation.signer message signed.signature = false then
    (.error (.attestationUnverified signed.attestation.signer), c)
  else
    let set := insert signed.attestation ((c.entries.lookup action).getD ∅)
    (.ok (), { c with entries := c.entries.insert action set })

/-- `get_action_result`; `cas` is what the wrapped store answers. -/
def getActionResult (c : MemActionCache) (cas : Digest → Except BackendError Bytes)
    (action : Digest) : Except BackendError (Option ActionResult) :=
  match c.entries.lookup action with
  | none => .ok none
  | some set =>
    match AttestationSet.resolve set c.k with
    | .unconfirmed => .ok none
    | .conflicting _ => .error (.actionResultConflict action)
    | .confirmed digest => do
      let bytes ← cas digest
      let result ← ActionResult.fromCanonicalBytes bytes
      .ok (some result)

end MemActionCache

/-- A call on one of several caches. -/
inductive CacheCall
  | attest (cache : Nat) (action : Digest) (signed : SignedAttestation)
  | get (cache : Nat) (action : Digest)

/-- Several caches, each with its own attestations. -/
def cacheStep (caches : List MemActionCache) : CacheCall → Option (List MemActionCache)
  | .attest i action signed =>
    caches[i]?.map fun c => caches.set i (c.attestActionResult action signed).2
  | .get i _ => caches[i]?.map fun _ => caches

end NessieStore
