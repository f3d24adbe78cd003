import NessieStore.Core.Ascending

/-!
# Action results

What a deterministic action produced, and its canonical bytes (`nessie-backend-core`,
`action_result.rs`). A result is stored as a blob under the digest of these bytes and attested by that
digest, so a second spelling of one result would be a second result. There is none: the encoding is
exact (`action_result_encoding_exact`).

As for trees, lengths and the number of outputs are written as `u64`, and reading back asks that they
fit (`ActionResult.Fits`).
-/

set_option autoImplicit false

namespace NessieStore

open Lib

structure OutputFile where
  digest : Digest
  isExecutable : Bool
deriving DecidableEq

/-- `ActionResult`; `outputs` is a `BTreeMap`, so its paths ascend strictly. -/
structure ActionResult where
  outputs : List (List Char × OutputFile)
  ascending : AscendsFrom none outputs
  exitCode : Int32
  stdoutDigest : Option Digest
  stderrDigest : Option Digest

/-! ## The readers that trees do not have -/

namespace Reader

variable (bad : String → BackendError)

def readI32 (r : Reader) : Except BackendError (Int32 × Reader) := do
  let (bytes, r) ← r.take bad 4
  .ok (⟨UInt32.ofNat (ofLeBytes bytes)⟩, r)

def readOptDigest (r : Reader) : Except BackendError (Option Digest × Reader) := do
  let (tag, r) ← r.readU8 bad
  if tag = 0 then .ok (none, r)
  else if tag = 1 then do
    let (digest, r) ← r.readDigest bad
    .ok (some digest, r)
  else .error (bad "option tag not 0/1")

end Reader

/-- `i32::to_le_bytes`. -/
def writeI32 (n : Int32) : Bytes := leBytes 4 n.toUInt32.toNat

def writeOptDigest : Option Digest → Bytes
  | none => [0]
  | some d => 1 :: writeDelimited d.toMultihashBytes

namespace Reader

variable {bad : String → BackendError}

theorem readI32_append (p : Nat) (tail : Bytes) (n : Int32) :
    readI32 bad ⟨p, writeI32 n ++ tail⟩ = .ok (n, ⟨p + 4, tail⟩) := by
  unfold readI32 writeI32
  rw [take_append p tail (length_leBytes 4 _)]
  show Except.ok ((⟨UInt32.ofNat (ofLeBytes (leBytes 4 n.toUInt32.toNat))⟩ : Int32),
    (⟨p + 4, tail⟩ : Reader)) = _
  rw [ofLeBytes_leBytes (UInt32.toNat_lt n.toUInt32), UInt32.ofNat_toNat]

theorem readI32_exact {r r' : Reader} {n : Int32} (h : r.readI32 bad = .ok (n, r')) :
    r.rest = writeI32 n ++ r'.rest := by
  obtain ⟨⟨bytes, r₁⟩, htake, h⟩ := Lib.ok_of_bind h
  cases h
  obtain ⟨hsplit, hlen⟩ := take_exact htake
  have hlt := ofLeBytes_lt bytes
  have hbytes := leBytes_ofLeBytes bytes
  rw [hlen] at hlt hbytes
  show r.rest = leBytes 4 (UInt32.ofNat (ofLeBytes bytes)).toNat ++ r'.rest
  rw [UInt32.toNat_ofNat_of_lt' hlt, hbytes]
  exact hsplit

variable (bad) in
theorem readOptDigest_append (p : Nat) (tail : Bytes) (d : Option Digest) :
    ∃ q, readOptDigest bad ⟨p, writeOptDigest d ++ tail⟩ = .ok (d, ⟨q, tail⟩) := by
  cases d with
  | none =>
    refine ⟨p + 1, ?_⟩
    show readOptDigest bad ⟨p, 0 :: tail⟩ = _
    simp only [readOptDigest, readU8_cons, if_true, bind, Except.bind]
  | some d =>
    refine ⟨p + 1 + 8 + d.toMultihashBytes.length, ?_⟩
    show readOptDigest bad ⟨p, 1 :: (writeDelimited d.toMultihashBytes ++ tail)⟩ = _
    have hone : ¬ (1 : UInt8) = 0 := by decide
    simp only [readOptDigest, readU8_cons, hone, if_false, if_true, readDigest_append, bind,
      Except.bind]

theorem readOptDigest_exact {r r' : Reader} {d : Option Digest}
    (h : r.readOptDigest bad = .ok (d, r')) : r.rest = writeOptDigest d ++ r'.rest := by
  obtain ⟨⟨tag, r₁⟩, htag, h⟩ := Lib.ok_of_bind h
  have hread := readU8_exact htag
  dsimp only at h
  split at h
  · next h0 =>
    cases h
    rw [hread, h0]
    rfl
  · split at h
    · next h1 =>
      obtain ⟨⟨digest, r₂⟩, hdigest, h⟩ := Lib.ok_of_bind h
      cases h
      rw [hread, h1, readDigest_exact hdigest]
      rfl
    · cases h

end Reader

/-! ## The codec -/

namespace ActionResult

/-- `AR_DOMAIN`. -/
def domain : Bytes := utf8 "nessie.ActionResult.v1\x00".toList

def bad (what : String) : BackendError := .invalidArgument ("malformed ActionResult: " ++ what)

/-- What stands behind a path: the digest, then the executable bit. -/
def fileCodec : ValueCodec OutputFile where
  write f := writeDelimited f.digest.toMultihashBytes ++ [f.isExecutable.toUInt8]
  read r := do
    let (digest, r) ← r.readDigest bad
    let (isExecutable, r) ← r.readBool bad
    .ok (⟨digest, isExecutable⟩, r)
  forward p tail f := by
    refine ⟨p + 8 + f.digest.toMultihashBytes.length + 1, ?_⟩
    simp only [List.append_assoc, List.singleton_append, Reader.readDigest_append,
      Reader.readBool_cons, bind, Except.bind]
  exact h := by
    obtain ⟨⟨digest, r₁⟩, hdigest, h⟩ := Lib.ok_of_bind h
    obtain ⟨⟨isExecutable, r₂⟩, hbool, h⟩ := Lib.ok_of_bind h
    cases h
    rw [Reader.readDigest_exact hdigest, Reader.readBool_exact hbool, List.append_assoc,
      List.singleton_append]

def toCanonicalBytes (v : ActionResult) : Bytes :=
  domain ++ writeI32 v.exitCode ++ leBytes 8 v.outputs.length ++
    v.outputs.flatMap (writeNamed fileCodec) ++ writeOptDigest v.stdoutDigest ++
    writeOptDigest v.stderrDigest

/-- The loop of `from_canonical_bytes` over the outputs. -/
def readOutputs (n : Nat) (r : Reader) :
    Except BackendError ({ outputs : List (List Char × OutputFile) // AscendsFrom none outputs } ×
      Reader) :=
  readAscending fileCodec (bad "output path") (bad "outputs not in canonical ascending order") bad n
    none r

def fromCanonicalBytes (bytes : Bytes) : Except BackendError ActionResult := do
  let r ← (Reader.new bytes).expectTag bad domain
  let (exitCode, r) ← r.readI32 bad
  let (n, r) ← r.readU64 bad
  let (outputs, r) ← readOutputs n r
  let (stdoutDigest, r) ← r.readOptDigest bad
  let (stderrDigest, r) ← r.readOptDigest bad
  r.expectEnd bad
  .ok ⟨outputs.1, outputs.2, exitCode, stdoutDigest, stderrDigest⟩

/-- `result_digest`. -/
def resultDigest (H : HashFn) (v : ActionResult) : Digest := Digest.compute H v.toCanonicalBytes

/-- The lengths that the encoding writes fit eight bytes. -/
structure Fits (v : ActionResult) : Prop where
  count : v.outputs.length < 2 ^ 64
  paths : ∀ e ∈ v.outputs, (utf8 e.1).length < 2 ^ 64

theorem fromCanonicalBytes_toCanonicalBytes {v : ActionResult} (h : v.Fits) :
    fromCanonicalBytes v.toCanonicalBytes = .ok v := by
  obtain ⟨q, houtputs⟩ := readAscending_append fileCodec (bad "output path")
    (bad "outputs not in canonical ascending order") bad v.outputs h.paths
    (writeOptDigest v.stdoutDigest ++ writeOptDigest v.stderrDigest) none
    (0 + domain.length + 4 + 8) v.ascending
  obtain ⟨q', hout⟩ :=
    Reader.readOptDigest_append bad q (writeOptDigest v.stderrDigest) v.stdoutDigest
  obtain ⟨q'', herr⟩ := Reader.readOptDigest_append bad q' [] v.stderrDigest
  rw [List.append_nil] at herr
  simp only [fromCanonicalBytes, toCanonicalBytes, Reader.new, List.append_assoc,
    Reader.expectTag_append, Reader.readI32_append, Reader.readU64_append _ _ h.count, readOutputs,
    houtputs, hout, herr, bind, Except.bind]
  rfl

theorem fromCanonicalBytes_exact {bytes : Bytes} {v : ActionResult}
    (h : fromCanonicalBytes bytes = .ok v) : v.Fits ∧ bytes = v.toCanonicalBytes := by
  obtain ⟨r₁, htag, h⟩ := Lib.ok_of_bind h
  obtain ⟨⟨exitCode, r₂⟩, hcode, h⟩ := Lib.ok_of_bind h
  obtain ⟨⟨n, r₃⟩, hcount, h⟩ := Lib.ok_of_bind h
  obtain ⟨⟨outputs, r₄⟩, houtputs, h⟩ := Lib.ok_of_bind h
  obtain ⟨⟨stdoutDigest, r₅⟩, hout, h⟩ := Lib.ok_of_bind h
  obtain ⟨⟨stderrDigest, r₆⟩, herr, h⟩ := Lib.ok_of_bind h
  obtain ⟨u, hend, h⟩ := Lib.ok_of_bind h
  cases h
  obtain ⟨hn, hlt⟩ := Reader.readU64_exact hcount
  obtain ⟨hlen, hpaths, hrest⟩ := readAscending_exact houtputs
  refine ⟨⟨hlen ▸ hlt, hpaths⟩, ?_⟩
  have hbytes : bytes = domain ++ r₁.rest := Reader.expectTag_exact htag
  rw [hbytes, Reader.readI32_exact hcode, hn, hrest, Reader.readOptDigest_exact hout,
    Reader.readOptDigest_exact herr, Reader.expectEnd_exact hend, toCanonicalBytes, hlen]
  simp only [List.append_assoc, List.append_nil]

theorem toCanonicalBytes_inj {v w : ActionResult} (hv : v.Fits) (hw : w.Fits)
    (h : v.toCanonicalBytes = w.toCanonicalBytes) : v = w := by
  have hok := fromCanonicalBytes_toCanonicalBytes hv
  rw [h, fromCanonicalBytes_toCanonicalBytes hw] at hok
  exact (Except.ok.inj hok).symm

/-- The canonical encoding of action results: every result that fits a 64-bit machine is read back,
what is read is such a result in the only bytes that stand for it, different results differ in their
bytes, and bytes that stand for no result are refused. -/
theorem action_result_encoding_exact :
    (∀ v : ActionResult, v.Fits → fromCanonicalBytes v.toCanonicalBytes = .ok v) ∧
      (∀ (bytes : Bytes) (v : ActionResult), fromCanonicalBytes bytes = .ok v →
        v.Fits ∧ v.toCanonicalBytes = bytes) ∧
      (∀ v w : ActionResult, v.Fits → w.Fits →
        (v = w ↔ v.toCanonicalBytes = w.toCanonicalBytes)) ∧
      ∀ bytes : Bytes, (∀ v : ActionResult, v.Fits → v.toCanonicalBytes ≠ bytes) →
        ∃ e, fromCanonicalBytes bytes = .error e := by
  refine ⟨fun v h => fromCanonicalBytes_toCanonicalBytes h, ?_, ?_, ?_⟩
  · intro bytes v h
    obtain ⟨hfits, hbytes⟩ := fromCanonicalBytes_exact h
    exact ⟨hfits, hbytes.symm⟩
  · intro v w hv hw
    exact ⟨fun h => by rw [h], toCanonicalBytes_inj hv hw⟩
  · intro bytes hnone
    cases h : fromCanonicalBytes bytes with
    | error e => exact ⟨e, rfl⟩
    | ok v =>
      obtain ⟨hfits, hbytes⟩ := fromCanonicalBytes_exact h
      exact absurd hbytes.symm (hnone v hfits)

end ActionResult

end NessieStore
