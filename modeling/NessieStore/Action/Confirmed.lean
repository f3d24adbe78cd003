import NessieStore.Action.Attestation
import NessieStore.Lib.Run

/-!
# What the action cache serves

Every attestation that a cache holds was verified on the way in, and the message that was verified is
the statement of the action it is filed under (`Genuine`). So a result that is served was signed by
`k` signers (`confirmed_signed`), and the body is the only one that its digest can stand for, because
the encoding of results is exact. With fewer than `k` Byzantine signers one of the `k` is honest, and
what an honest signer signs for an action is the digest of its true result: nothing else is confirmed
on any cache.

What an honest signer signs is one digest for each action, under an algorithm that may depend on the
action; the source always signs `result_digest`, under the default one. Two digests of one result,
under two algorithms, are two results to the cache.
-/

set_option autoImplicit false

namespace NessieStore

open Lib

/-- What the wrapped store may answer: contents in `used` that hash to what was asked for, and no
error that only an action cache reports. -/
structure ServesVerified (H : HashFn) (used : Bytes → Prop)
    (cas : Digest → Except BackendError Bytes) : Prop where
  used : ∀ d bytes, cas d = .ok bytes → used bytes
  verified : ∀ d bytes, cas d = .ok bytes → d.verify H bytes = true
  noConflict : ∀ d action, cas d ≠ .error (.actionResultConflict action)

/-- The signer signs the statement of one result for each action, and otherwise nothing that reads as
a statement. -/
def Honest (signed : SignerId → Bytes → Prop) (result : Digest → Digest) (s : SignerId) : Prop :=
  ∀ m, signed s m → (∃ action, m = statementSigningBytes action (result action)) ∨
    ∀ action d, m ≠ statementSigningBytes action d

/-- A cache with threshold `k` whose verifier accepts only what was signed, and which holds only
attestations that were signed as statements of the action they are filed under. -/
structure Genuine (signed : SignerId → Bytes → Prop) (k : Nat) (c : MemActionCache) : Prop where
  threshold : c.k = k
  verifier : ∀ s m sig, c.verifier s m sig = true → signed s m
  held : ∀ action set, c.entries.lookup action = some set → ∀ a ∈ set,
    signed a.signer (statementSigningBytes action a.result)

section

variable {signed : SignerId → Bytes → Prop} {k : Nat} {c : MemActionCache}

theorem Genuine.attest (h : Genuine signed k c) (action : Digest) (att : SignedAttestation) :
    Genuine signed k (c.attestActionResult action att).2 := by
  unfold MemActionCache.attestActionResult
  dsimp only
  split
  · exact h
  · next hverified =>
    refine ⟨h.threshold, h.verifier, ?_⟩
    intro action' set hset a ha
    rw [Map.lookup_insert_eq] at hset
    split at hset
    · next heq =>
      cases hset
      subst heq
      rcases Finset.mem_insert.mp ha with rfl | ha
      · exact h.verifier _ _ _ (Bool.of_not_eq_false hverified)
      · cases hold : c.entries.lookup action' with
        | none => simp [hold] at ha
        | some old =>
          rw [hold] at ha
          exact h.held action' old hold a ha
    · exact h.held action' set hset a ha

/-- The step lemma: a call on one cache keeps every cache genuine. -/
theorem genuine_step {caches caches' : List MemActionCache} {call : CacheCall}
    (h : ∀ c ∈ caches, Genuine signed k c) (hstep : cacheStep caches call = some caches') :
    ∀ c ∈ caches', Genuine signed k c := by
  cases call with
  | attest i action att =>
    obtain ⟨c, hc, rfl⟩ := Option.map_eq_some_iff.mp hstep
    intro c' hc'
    rcases List.mem_or_eq_of_mem_set hc' with hmem | rfl
    · exact h c' hmem
    · exact (h c (List.mem_of_getElem? hc)).attest action att
  | get i action =>
    obtain ⟨c, -, rfl⟩ := Option.map_eq_some_iff.mp hstep
    exact h

/-! ## What is confirmed -/

/-- A confirmed result was signed by at least `k` signers. -/
theorem Genuine.confirmed_signed (h : Genuine signed k c) {action result : Digest}
    {set : AttestationSet} (hset : c.entries.lookup action = some set)
    (hconf : result ∈ AttestationSet.confirmed set c.k) :
    k ≤ (AttestationSet.signersFor set result).card ∧
      ∀ s ∈ AttestationSet.signersFor set result, signed s (statementSigningBytes action result) := by
  have hcount := of_decide_eq_true (Finset.mem_filter.mp hconf).2
  refine ⟨h.threshold ▸ hcount, ?_⟩
  intro s hs
  obtain ⟨a, ha, rfl⟩ := Finset.mem_image.mp hs
  obtain ⟨hmem, rfl⟩ := Finset.mem_filter.mp ha
  exact h.held action set hset a hmem

/-- With fewer than `k` Byzantine signers, what is confirmed is what the honest ones sign: one of the
`k` is honest, and a message is the statement of one action only. -/
theorem Genuine.confirmed_true (h : Genuine signed k c) {truth : Digest → Digest}
    {byzantine : Finset SignerId} (hfew : byzantine.card < k)
    (hhonest : ∀ s, s ∉ byzantine → Honest signed truth s) {action result : Digest}
    {set : AttestationSet} (hset : c.entries.lookup action = some set)
    (hconf : result ∈ AttestationSet.confirmed set c.k) : result = truth action := by
  obtain ⟨hcount, hsigned⟩ := h.confirmed_signed hset hconf
  obtain ⟨s, hs, hgood⟩ := Finset.exists_mem_notMem_of_card_lt_card (Nat.lt_of_lt_of_le hfew hcount)
  rcases hhonest s hgood _ (hsigned s hs) with ⟨action', hm⟩ | hm
  · obtain ⟨rfl, rfl⟩ := statementSigningBytes_inj hm
    rfl
  · exact absurd rfl (hm action result)

end

theorem confirmed_of_resolve {set : AttestationSet} {k : Nat} {d : Digest}
    (h : AttestationSet.resolve set k = .confirmed d) : d ∈ AttestationSet.confirmed set k := by
  rw [AttestationSet.resolve_eq_confirmed_iff.mp h]
  exact Finset.mem_singleton_self d

/-- A conflict has two results that are confirmed. -/
theorem two_confirmed_of_resolve {set : AttestationSet} {k : Nat} {results : Finset Digest}
    (h : AttestationSet.resolve set k = .conflicting results) :
    ∃ d ∈ AttestationSet.confirmed set k, ∃ d' ∈ AttestationSet.confirmed set k, d ≠ d' := by
  obtain ⟨rfl, htwo⟩ := AttestationSet.resolve_eq_conflicting_iff.mp h
  obtain ⟨d, hd, d', hd', hne⟩ := Finset.one_lt_card.mp htwo
  exact ⟨d, hd, d', hd', hne⟩

/-! ## What is served -/

section

variable {H : HashFn} {used : Bytes → Prop} {cas : Digest → Except BackendError Bytes}
  {signed : SignerId → Bytes → Prop} {k : Nat} {c : MemActionCache} {action : Digest}

/-- What is served was read from the store under a confirmed digest. -/
theorem served_of_get {r : ActionResult} (h : c.getActionResult cas action = .ok (some r)) :
    ∃ set d bytes, c.entries.lookup action = some set ∧ d ∈ AttestationSet.confirmed set c.k ∧
      cas d = .ok bytes ∧ ActionResult.fromCanonicalBytes bytes = .ok r := by
  unfold MemActionCache.getActionResult at h
  split at h
  · cases h
  · next set hset =>
    split at h
    · cases h
    · cases h
    · next d hd =>
      obtain ⟨bytes, hcas, h⟩ := Lib.ok_of_bind h
      obtain ⟨r', hread, h⟩ := Lib.ok_of_bind h
      cases h
      exact ⟨set, d, bytes, hset, confirmed_of_resolve hd, hcas, hread⟩

/-- What is served was signed by `k` signers. -/
theorem Genuine.get_signed (h : Genuine signed k c) (hcas : ServesVerified H used cas)
    {r : ActionResult} (hget : c.getActionResult cas action = .ok (some r)) :
    ∃ d : Digest, d.verify H r.toCanonicalBytes = true ∧ ∃ signers : Finset SignerId,
      k ≤ signers.card ∧ ∀ s ∈ signers, signed s (statementSigningBytes action d) := by
  obtain ⟨set, d, bytes, hset, hconf, hbytes, hread⟩ := served_of_get hget
  have hverified := hcas.verified d bytes hbytes
  rw [(ActionResult.fromCanonicalBytes_exact hread).2] at hverified
  exact ⟨d, hverified, _, h.confirmed_signed hset hconf⟩

/-- The results that honest signers sign: one for each action, under one digest. -/
structure Truth (H : HashFn) (used : Bytes → Prop) where
  result : Digest → ActionResult
  algo : Digest → DigestAlgo
  fits : ∀ action, (result action).Fits
  used : ∀ action, used (result action).toCanonicalBytes

def Truth.digest (truth : Truth H used) (action : Digest) : Digest :=
  Digest.computeWith H (truth.algo action) (truth.result action).toCanonicalBytes

/-- The only contents that the digest of a true result can be served with decode to that result. -/
theorem Truth.served (truth : Truth H used) (hcf : H.CollisionFree used)
    (hcas : ServesVerified H used cas) {bytes : Bytes}
    (hbytes : cas (truth.digest action) = .ok bytes) :
    ActionResult.fromCanonicalBytes bytes = .ok (truth.result action) := by
  have hsame : bytes = (truth.result action).toCanonicalBytes :=
    Digest.verify_unique hcf (hcas.used _ _ hbytes) (truth.used action) (hcas.verified _ _ hbytes)
      (decide_eq_true rfl)
  rw [hsame]
  exact ActionResult.fromCanonicalBytes_toCanonicalBytes (truth.fits action)

/-- With fewer than `k` Byzantine signers a cache answers nothing, the true result, or an error of
its store. -/
theorem Genuine.get_true (h : Genuine signed k c) (hcf : H.CollisionFree used)
    (hcas : ServesVerified H used cas) (truth : Truth H used) {byzantine : Finset SignerId}
    (hfew : byzantine.card < k) (hhonest : ∀ s, s ∉ byzantine → Honest signed truth.digest s)
    (action : Digest) :
    c.getActionResult cas action = .ok none ∨
      c.getActionResult cas action = .ok (some (truth.result action)) ∨
      ∃ e, cas (truth.digest action) = .error e ∧ c.getActionResult cas action = .error e := by
  unfold MemActionCache.getActionResult
  split
  · exact .inl rfl
  · next set hset =>
    split
    · exact .inl rfl
    · next results hres =>
      obtain ⟨d, hd, d', hd', hne⟩ := two_confirmed_of_resolve hres
      have htrue := h.confirmed_true hfew hhonest hset hd
      have htrue' := h.confirmed_true hfew hhonest hset hd'
      exact absurd (htrue.trans htrue'.symm) hne
    · next d hres =>
      have htrue := h.confirmed_true hfew hhonest hset (confirmed_of_resolve hres)
      rw [htrue]
      right
      cases hbytes : cas (truth.digest action) with
      | error e => exact .inr ⟨e, rfl, rfl⟩
      | ok bytes =>
        left
        simp only [truth.served hcf hcas hbytes, bind, Except.bind]

end

/-- Any number of caches with threshold `k`, empty at the start and with sound verifiers, after any
run of calls: what a cache serves for an action was signed for it by `k` signers, by a digest of the
served body; and if fewer than `k` signers are Byzantine and the others sign the true result of each
action only, then it is the true result that is served, and no conflict is reported. -/
theorem action_cache_serves_truth {H : HashFn} {used : Bytes → Prop} (hcf : H.CollisionFree used)
    {signed : SignerId → Bytes → Prop} {k : Nat} {init caches : List MemActionCache}
    {calls : List CacheCall}
    (hempty : ∀ c ∈ init, c.entries = ∅)
    (hthreshold : ∀ c ∈ init, c.k = k)
    (hsound : ∀ c ∈ init, ∀ s m sig, c.verifier s m sig = true → signed s m)
    (hrun : Run cacheStep (fun _ _ => True) init calls caches) {c : MemActionCache} (hc : c ∈ caches)
    {cas : Digest → Except BackendError Bytes} (hcas : ServesVerified H used cas)
    (action : Digest) :
    (∀ r, c.getActionResult cas action = .ok (some r) →
      ∃ d : Digest, d.verify H r.toCanonicalBytes = true ∧ ∃ signers : Finset SignerId,
        k ≤ signers.card ∧ ∀ s ∈ signers, signed s (statementSigningBytes action d)) ∧
    ∀ (truth : Truth H used) (byzantine : Finset SignerId), byzantine.card < k →
      (∀ s, s ∉ byzantine → Honest signed truth.digest s) →
      (∀ r, c.getActionResult cas action = .ok (some r) → r = truth.result action) ∧
        ∀ a, c.getActionResult cas action ≠ .error (.actionResultConflict a) := by
  have hinit : ∀ c ∈ init, Genuine signed k c := fun c hmem =>
    ⟨hthreshold c hmem, hsound c hmem, fun action set hset => by simp [hempty c hmem] at hset⟩
  have hgenuine := hrun.keeps (fun _ => genuine_step) hinit c hc
  refine ⟨fun r hget => hgenuine.get_signed hcas hget, ?_⟩
  intro truth byzantine hfew hhonest
  rcases hgenuine.get_true hcf hcas truth hfew hhonest action with
    hnone | hsome | ⟨e, hstore, herr⟩
  · rw [hnone]
    refine ⟨?_, ?_⟩
    · rintro r ⟨⟩
    · rintro a ⟨⟩
  · rw [hsome]
    refine ⟨?_, ?_⟩
    · rintro r ⟨⟩
      rfl
    · rintro a ⟨⟩
  · rw [herr]
    refine ⟨?_, ?_⟩
    · rintro r ⟨⟩
    · rintro a ⟨⟩
      exact hcas.noConflict _ _ hstore

/-! A run that serves something: two caches with threshold 2, and three signers. The first two attest
the result of a build to one of the caches; the third attests another result, and somebody else attests
that one in the name of the first. -/

def buildResult : ActionResult where
  outputs := [("out".toList, ⟨.compute .short [1], true⟩)]
  ascending := .cons (by simp) (.nil _)
  exitCode := 1
  stdoutDigest := some (.compute .short [2])
  stderrDigest := none

def otherResult : ActionResult := ⟨[], .nil none, 0, none, none⟩

def buildAction : Digest := Digest.compute HashFn.short []

def statementOf (r : ActionResult) : Bytes :=
  statementSigningBytes buildAction (r.resultDigest HashFn.short)

/-- What the three have signed. -/
def signedBy (s : SignerId) (m : Bytes) : Prop :=
  (s = ⟨[1]⟩ ∨ s = ⟨[2]⟩) ∧ m = statementOf buildResult ∨ s = ⟨[3]⟩ ∧ m = statementOf otherResult

instance (s : SignerId) (m : Bytes) : Decidable (signedBy s m) :=
  inferInstanceAs (Decidable (_ ∨ _))

def cacheOfTwo : MemActionCache where
  verifier s m _ := signedBy s m
  k := 2
  k_pos := by decide
  entries := ∅

def attestationOf (s : SignerId) (r : ActionResult) : SignedAttestation :=
  ⟨⟨s, r.resultDigest HashFn.short⟩, ⟨[]⟩⟩

def bothBytes (bytes : Bytes) : Prop :=
  bytes = buildResult.toCanonicalBytes ∨ bytes = otherResult.toCanonicalBytes

theorem bothBytes_collisionFree : HashFn.short.CollisionFree bothBytes := by
  have hne : ∀ algo, HashFn.short.hash algo buildResult.toCanonicalBytes ≠
      HashFn.short.hash algo otherResult.toCanonicalBytes := by
    intro algo
    cases algo <;> decide +kernel
  rintro algo _ _ (rfl | rfl) (rfl | rfl) h
  · rfl
  · exact absurd h (hne algo)
  · exact absurd h.symm (hne algo)
  · rfl

/-- A store with both results. -/
def casOfBoth (d : Digest) : Except BackendError Bytes :=
  if d = buildResult.resultDigest HashFn.short then .ok buildResult.toCanonicalBytes
  else if d = otherResult.resultDigest HashFn.short then .ok otherResult.toCanonicalBytes
  else .error (.blobNotFound d)

theorem casOfBoth_served {d : Digest} {bytes : Bytes} (h : casOfBoth d = .ok bytes) :
    bothBytes bytes ∧ d = Digest.compute HashFn.short bytes := by
  unfold casOfBoth at h
  split at h
  · next hd => cases h; exact ⟨.inl rfl, hd⟩
  · split at h
    · next hd => cases h; exact ⟨.inr rfl, hd⟩
    · cases h

theorem casOfBoth_servesVerified : ServesVerified HashFn.short bothBytes casOfBoth where
  used _ _ h := (casOfBoth_served h).1
  verified d bytes h := by
    rw [(casOfBoth_served h).2]
    exact decide_eq_true rfl
  noConflict d action h := by
    unfold casOfBoth at h
    split at h
    · cases h
    · split at h <;> cases h

/-- The build has one true result. -/
def buildTruth : Truth HashFn.short bothBytes where
  result _ := buildResult
  algo _ := .blake3
  fits _ := ⟨by decide, by decide +kernel⟩
  used _ := .inl rfl

theorem signedBy_honest {s : SignerId} (h : s ∉ ({⟨[3]⟩} : Finset SignerId)) :
    Honest signedBy buildTruth.digest s := by
  rintro m (⟨-, rfl⟩ | ⟨rfl, -⟩)
  · exact .inl ⟨buildAction, rfl⟩
  · exact absurd (Finset.mem_singleton_self _) h

def attestBuild : List CacheCall :=
  [.attest 0 buildAction (attestationOf ⟨[3]⟩ otherResult),
    .attest 0 buildAction (attestationOf ⟨[1]⟩ otherResult),
    .attest 0 buildAction (attestationOf ⟨[1]⟩ buildResult), .get 0 buildAction,
    .attest 0 buildAction (attestationOf ⟨[2]⟩ buildResult), .get 0 buildAction]

def attestedBuild : AttestationSet :=
  {⟨⟨[3]⟩, otherResult.resultDigest .short⟩, ⟨⟨[1]⟩, buildResult.resultDigest .short⟩,
    ⟨⟨[2]⟩, buildResult.resultDigest .short⟩}

/-- The forged attestation is refused, the other result stays unconfirmed, and what is served is the
result of the build. -/
theorem action_cache_serves_build : ∃ caches,
    run cacheStep (fun _ _ => True) [cacheOfTwo, cacheOfTwo] attestBuild = some caches ∧
    ∃ c ∈ caches, c.entries.lookup buildAction = some attestedBuild ∧
      c.getActionResult casOfBoth buildAction = .ok (some buildResult) ∧
      ∃ d : Digest, d.verify HashFn.short buildResult.toCanonicalBytes = true ∧
        ∃ signers : Finset SignerId, 2 ≤ signers.card ∧
          ∀ s ∈ signers, signedBy s (statementSigningBytes buildAction d) := by
  obtain ⟨caches, hrun, c, hc, hheld, hsome⟩ : ∃ caches,
      run cacheStep (fun _ _ => True) [cacheOfTwo, cacheOfTwo] attestBuild = some caches ∧
      ∃ c ∈ caches, c.entries.lookup buildAction = some attestedBuild ∧
        (c.getActionResult casOfBoth buildAction).toOption.join.isSome = true :=
    run_exists (by decide +kernel)
  have hinit : ∀ {P : MemActionCache → Prop}, P cacheOfTwo → ∀ c ∈ [cacheOfTwo, cacheOfTwo], P c := by
    intro P hP c hc
    simp only [List.mem_cons, List.not_mem_nil, or_false, or_self] at hc
    exact hc ▸ hP
  obtain ⟨hsigned, htrue⟩ := action_cache_serves_truth (k := 2) bothBytes_collisionFree (hinit rfl)
    (hinit rfl) (hinit fun _ _ _ => of_decide_eq_true) (run_sound hrun) hc casOfBoth_servesVerified
    buildAction
  obtain ⟨hserved, -⟩ := htrue buildTruth {⟨[3]⟩} (by decide) fun s hs => signedBy_honest hs
  obtain ⟨r, hr⟩ := Option.isSome_iff_exists.mp hsome
  have hget : c.getActionResult casOfBoth buildAction = .ok (some r) :=
    toOption_eq_some_iff.mp (Option.join_eq_some_iff.mp hr)
  obtain rfl : r = buildResult := hserved r hget
  exact ⟨caches, hrun, c, hc, hheld, hget, hsigned buildResult hget⟩

end NessieStore
