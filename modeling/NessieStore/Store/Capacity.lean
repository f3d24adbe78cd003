import NessieStore.Store.System

/-!
# The capacity gate keeps a `write_only` store within its capacity

Any number of concurrent `put` and `put_keyed` calls on one `write_only` store, without quarantine.
The bytes of the live blobs are at most `committed` plus what published writers have still to charge,
and never more than the capacity or what was there at startup.

The gate reads `pending` and `committed` in two steps, so no single counter bounds the live bytes.
What does is the *claim* of each writer: the bytes its gate has accepted and nobody has charged, and
with them a chunk that is in `pending` and that the test would accept at the present `committed`.
A chunk enters the claims only when `committed + pending` with it is within capacity, and `pending`
is at least the sum of all claims; charging moves a claim into `committed` and can only turn waiting
chunks away.

Two contents of one digest have to be the same bytes, or a free re-put could grow a file. The
assumption is `CollisionFree` on the contents `used` of the run.
-/

set_option autoImplicit false

namespace NessieStore

open Lib

/-- What the gate has accepted and nobody has charged, when `committed` is `c`. -/
def Phase.claim (capacity c : Nat) : Phase → Nat
  | .gated _ mine _ | .published mine => mine
  | .added _ mine chunk before =>
    mine + if fits capacity c before chunk.length then chunk.length else 0
  | .loaded _ mine chunk before seen =>
    mine + if fits capacity seen before chunk.length then chunk.length else 0
  | _ => 0

theorem fits_iff {capacity seen before n : Nat} (hcap : capacity < u64Max) :
    fits capacity seen before n = true ↔ seen + before + n ≤ capacity := by
  unfold fits saturatingAdd
  rw [decide_eq_true_iff]
  omega

theorem Phase.claim_le_reserved (capacity c : Nat) (ph : Phase) :
    ph.claim capacity c ≤ ph.reserved := by
  cases ph <;> simp only [claim, reserved, le_refl, Nat.zero_le]
  all_goals split <;> omega

/-- A higher `committed` turns chunks away and never lets one in. -/
theorem Phase.claim_anti {capacity c c' : Nat} (hcap : capacity < u64Max) (h : c ≤ c')
    (ph : Phase) : ph.claim capacity c' ≤ ph.claim capacity c := by
  cases ph with
  | added got mine chunk before =>
    have himp : fits capacity c' before chunk.length = true →
        fits capacity c before chunk.length = true := by
      rw [fits_iff hcap, fits_iff hcap]
      omega
    simp only [claim]
    split
    · next hf => rw [if_pos (himp hf)]
    · omega
  | _ => exact le_refl _

/-- `put` and `put_keyed` calls, and the methods that touch neither blobs nor books. -/
def Act.writesOnly : Act → Bool
  | .put | .putKeyed _ | .write _ _ | .release _ | .get _ => true
  | _ => false

/-- Only writes run, and what they publish is among the contents `used`. -/
def WritesOnly (used : Bytes → Prop) (x : Sys) (a : Act) : Prop :=
  a.writesOnly = true ∧ ∀ p ∈ x.publishing a, used p.2

instance (used : Bytes → Prop) [DecidablePred used] (x : Sys) (a : Act) :
    Decidable (WritesOnly used x a) :=
  inferInstanceAs (Decidable (_ ∧ _))

section Invariant

variable (H : HashFn) (used : Bytes → Prop) (capacity start aside : Nat)

/-- What a running write knows about the store. -/
def CallOk (s : CasStore) : Putter → Prop
  | .keyed ⟨d, _, .ungated reg _ _⟩ => reg = true ∧ s.inner.has d = true
  | .keyed ⟨_, _, .gated got mine _⟩ | .keyed ⟨_, _, .added got mine _ _⟩
  | .keyed ⟨_, _, .loaded got mine _ _ _⟩ => got.length = mine
  | .keyed ⟨d, _, .published mine⟩ => s.inner.size d = some mine
  | _ => True

/-- The invariant of the gate, where the store opened with `start` live bytes and `aside` quarantined
ones. -/
structure CapInv (x : Sys) : Prop where
  mode : x.store.mode = .writeOnly capacity
  kept : Map.total id x.store.state.quarantined = aside
  mirror : x.store.committed = x.store.state.committed
  books : x.store.state.committed =
    Map.total id x.store.state.accounted + Map.total id x.store.state.quarantined
  reserved : x.store.pending = weigh (Putter.meter Phase.reserved) x.puts
  budget : x.store.state.committed +
    weigh (Putter.meter (Phase.claim capacity x.store.state.committed)) x.puts ≤
      max capacity (start + aside)
  healthy : ∀ d b, x.store.inner.blobs.lookup d = some b → used b ∧ d.verify H b = true
  calls : ∀ p ∈ x.puts, CallOk x.store p
  exact : ∀ d n, x.store.state.accounted.lookup d = some n → x.store.inner.size d = some n
  /-- A live blob is empty, charged, or about to be charged. -/
  cover : ∀ d n, x.store.inner.size d = some n → n = 0 ∨ x.store.state.accounted.lookup d = some n ∨
    ∃ p ∈ x.puts, ∃ src, p = .keyed ⟨d, src, .published n⟩

end Invariant

theorem CallOk.mono {s s' : CasStore} {p : Putter}
    (h : ∀ d n, s.inner.size d = some n → s'.inner.size d = some n) (hp : CallOk s p) :
    CallOk s' p := by
  have hhas : ∀ d, s.inner.has d = true → s'.inner.has d = true := fun d hd => by
    obtain ⟨n, hn⟩ := Option.isSome_iff_exists.mp hd
    exact Option.isSome_iff_exists.mpr ⟨n, h d n hn⟩
  cases p with
  | spooling got => trivial
  | failed e => trivial
  | keyed w =>
    obtain ⟨d, src, ph⟩ := w
    cases ph with
    | ungated reg got eof => exact ⟨hp.1, hhas d hp.2⟩
    | published mine => exact h d mine hp
    | _ => exact hp

namespace CapInv

variable {H : HashFn} {used : Bytes → Prop} {capacity start aside : Nat} {x : Sys}

/-- A call starts. -/
theorem begin (h : CapInv H used capacity start aside x) {p : Putter} (hok : CallOk x.store p)
    (hmeter : ∀ f, (∀ ph, f ph ≤ ph.reserved) → p.meter f = 0) :
    CapInv H used capacity start aside { x with puts := x.puts ++ [p] } where
  mode := h.mode
  kept := h.kept
  mirror := h.mirror
  books := h.books
  reserved := by
    have h0 := hmeter Phase.reserved fun ph => le_refl _
    simp [h.reserved, h0]
  budget := by
    have h0 := hmeter _ (Phase.claim_le_reserved capacity x.store.state.committed)
    simpa [h0] using h.budget
  healthy := h.healthy
  calls := by
    intro q hq
    rcases List.mem_append.mp hq with hq | hq
    · exact h.calls q hq
    · rw [List.mem_singleton.mp hq]
      exact hok
  exact := h.exact
  cover := fun d n hn => by
    rcases h.cover d n hn with h0 | hacc | ⟨q, hq, hpub⟩
    · exact .inl h0
    · exact .inr (.inl hacc)
    · exact .inr (.inr ⟨q, List.mem_append_left _ hq, hpub⟩)

/-- A method that leaves the books alone. -/
theorem method (h : CapInv H used capacity start aside x) {s' : CasStore} (hb : SameBooks x.store s')
    (hpend : s'.pending = x.store.pending) :
    CapInv H used capacity start aside { x with store := s' } where
  mode := hb.mode.trans h.mode
  kept := by rw [hb.quarantined, h.kept]
  mirror := by rw [hb.mirror, hb.committed, h.mirror]
  books := by rw [hb.committed, hb.accounted, hb.quarantined, h.books]
  reserved := hpend.trans h.reserved
  budget := by
    simp only [hb.committed]
    exact h.budget
  healthy := by
    simp only [hb.inner]
    exact h.healthy
  calls := fun p hp => (h.calls p hp).mono fun d n hn => by rw [hb.inner]; exact hn
  exact := by
    simp only [hb.inner, hb.accounted]
    exact h.exact
  cover := by
    simp only [hb.inner, hb.accounted]
    exact h.cover

/-- A write moves on and leaves the books alone; it had not published. -/
theorem quiet (h : CapInv H used capacity start aside x) {i : Nat} {p p' : Putter} {s' : CasStore}
    (hi : x.puts[i]? = some p) (hb : SameBooks x.store s')
    (hpend : s'.pending + p.meter Phase.reserved = x.store.pending + p'.meter Phase.reserved)
    (hbudget : x.store.state.committed +
        weigh (Putter.meter (Phase.claim capacity x.store.state.committed)) x.puts +
        p'.meter (Phase.claim capacity x.store.state.committed) ≤
      max capacity (start + aside) + p.meter (Phase.claim capacity x.store.state.committed))
    (hok : CallOk s' p') (hpub : ∀ d src n, p ≠ .keyed ⟨d, src, .published n⟩) :
    CapInv H used capacity start aside { x with store := s', puts := x.puts.set i p' } where
  mode := hb.mode.trans h.mode
  kept := by rw [hb.quarantined, h.kept]
  mirror := by rw [hb.mirror, hb.committed, h.mirror]
  books := by rw [hb.committed, hb.accounted, hb.quarantined, h.books]
  reserved := by
    have hset := weigh_set (f := Putter.meter Phase.reserved) hi p'
    have hold := h.reserved
    show s'.pending = weigh _ (x.puts.set i p')
    omega
  budget := by
    have hset := weigh_set (f := Putter.meter (Phase.claim capacity x.store.state.committed)) hi p'
    simp only [hb.committed]
    omega
  healthy := by
    simp only [hb.inner]
    exact h.healthy
  calls := forall_mem_set
    (fun q hq => (h.calls q hq).mono fun d n hn => by rw [hb.inner]; exact hn) hok
  exact := by
    simp only [hb.inner, hb.accounted]
    exact h.exact
  cover := fun d n hn => by
    simp only [hb.inner, hb.accounted] at hn ⊢
    rcases h.cover d n hn with h0 | hacc | hex
    · exact .inl h0
    · exact .inr (.inl hacc)
    · refine .inr (.inr (exists_mem_set hi ?_ hex))
      rintro ⟨src, rfl⟩
      exact absurd rfl (hpub d src n)

/-- Under one digest there is one content, so landing it again changes nothing. -/
theorem lookup_land (h : CapInv H used capacity start aside x) (hcf : H.CollisionFree used) {d : Digest}
    {got : Bytes} (hused : used got) (hv : d.verify H got = true) (d' : Digest) :
    (x.store.land d got).inner.blobs.lookup d' =
      if d' = d then some got else x.store.inner.blobs.lookup d' := by
  have hold : ∀ b, x.store.inner.blobs.lookup d = some b → b = got := fun b hb =>
    Digest.verify_unique hcf (h.healthy d b hb).1 hused (h.healthy d b hb).2 hv
  simp only [CasStore.land, LocalCas.lookup_land]
  split
  · cases hk : x.store.inner.kind with
    | disk => rfl
    | mem =>
      cases hb : x.store.inner.blobs.lookup d with
      | none => rfl
      | some b => rw [hold b hb]; rfl
  · rfl

/-- A write lands. Its digest is covered afterwards: it was held before, or the write is about to
charge for it. -/
theorem land (h : CapInv H used capacity start aside x) (hcf : H.CollisionFree used) {i : Nat}
    {d : Digest} {got : Bytes} {p p' : Putter} (hi : x.puts[i]? = some p) (hused : used got)
    (hv : d.verify H got = true) (hres : p'.meter Phase.reserved = p.meter Phase.reserved)
    (hclaim : ∀ c, p'.meter (Phase.claim capacity c) = p.meter (Phase.claim capacity c))
    (hok : CallOk (x.store.land d got) p') (hpub : ∀ d' src n, p ≠ .keyed ⟨d', src, .published n⟩)
    (hcover : x.store.inner.has d = true ∨ ∃ src, p' = .keyed ⟨d, src, .published got.length⟩) :
    CapInv H used capacity start aside
      { x with store := x.store.land d got, puts := x.puts.set i p' } := by
  have hlook := h.lookup_land hcf hused hv
  have hsize : ∀ d', (x.store.land d got).inner.size d' =
      if d' = d then some got.length else x.store.inner.size d' := fun d' => by
    simp only [LocalCas.size, hlook]
    split <;> rfl
  -- what was held keeps its size, the landed digest included
  have hkeep : ∀ d' n, x.store.inner.size d' = some n →
      (x.store.land d got).inner.size d' = some n := by
    intro d' n hn
    rw [hsize]
    split
    · next hd =>
      subst hd
      obtain ⟨b, hb, rfl⟩ := Option.map_eq_some_iff.mp hn
      rw [Digest.verify_unique hcf (h.healthy d' b hb).1 hused (h.healthy d' b hb).2 hv]
    · exact hn
  exact {
    mode := h.mode
    kept := h.kept
    mirror := h.mirror
    books := h.books
    reserved := by
      have hset := weigh_set (f := Putter.meter Phase.reserved) hi p'
      have hold := h.reserved
      show x.store.pending = weigh _ (x.puts.set i p')
      omega
    budget := by
      have hset := weigh_set (f := Putter.meter (Phase.claim capacity x.store.state.committed)) hi p'
      have hold := h.budget
      have hc := hclaim x.store.state.committed
      dsimp only [CasStore.land]
      omega
    healthy := by
      intro d' b hb
      rw [hlook] at hb
      split at hb
      · next hd => cases hb; exact ⟨hused, hd ▸ hv⟩
      · exact h.healthy d' b hb
    calls := forall_mem_set (fun q hq => (h.calls q hq).mono hkeep) hok
    exact := fun d' n hn => hkeep d' n (h.exact d' n hn)
    cover := by
      intro d' n hn
      have hcase : x.store.inner.size d' = some n ∨
          ∃ src, p' = .keyed ⟨d', src, .published n⟩ := by
        by_cases hd : d' = d
        · subst hd
          rw [hsize, if_pos rfl] at hn
          cases hn
          rcases hcover with hheld | hp'
          · obtain ⟨m, hm⟩ := Option.isSome_iff_exists.mp hheld
            have hm' := hkeep d' m hm
            rw [hsize, if_pos rfl] at hm'
            exact .inl (hm' ▸ hm)
          · exact .inr hp'
        · rw [hsize, if_neg hd] at hn
          exact .inl hn
      rcases hcase with hold | hp'
      · rcases h.cover d' n hold with h0 | hacc | hex
        · exact .inl h0
        · exact .inr (.inl hacc)
        · refine .inr (.inr (exists_mem_set hi ?_ hex))
          rintro ⟨src, rfl⟩
          exact absurd rfl (hpub d' src n)
      · exact .inr (.inr ⟨p', mem_set_of_getElem? hi, hp'⟩) }

/-- A published write charges its bytes. -/
theorem charge (h : CapInv H used capacity start aside x) (hcap : capacity < u64Max) {i : Nat}
    {d : Digest} {src : Source} {mine : Nat} (hi : x.puts[i]? = some (.keyed ⟨d, src, .published mine⟩)) :
    CapInv H used capacity start aside
      { x with
        store := x.store.account d mine
        puts := x.puts.set i (.keyed ⟨d, src, .charged mine⟩) } := by
  have hmem := List.mem_of_getElem? hi
  have hsize : x.store.inner.size d = some mine := h.calls _ hmem
  have hres := weigh_set (f := Putter.meter Phase.reserved) hi (.keyed ⟨d, src, .charged mine⟩)
  have hclaim := fun c => weigh_set (f := Putter.meter (Phase.claim capacity c)) hi
    (.keyed ⟨d, src, .charged mine⟩)
  simp only [Putter.meter_keyed, Phase.reserved, Phase.claim] at hres hclaim
  have hcalls : ∀ q ∈ x.puts.set i (.keyed ⟨d, src, .charged mine⟩),
      CallOk (x.store.account d mine) q :=
    forall_mem_set (fun q hq => (h.calls q hq).mono fun d' n hn => by simpa using hn) trivial
  -- the writer's own cover is replaced by a charge, or was not needed
  have hcover : ∀ d' n, x.store.inner.size d' = some n →
      n = 0 ∨ x.store.state.accounted.lookup d' = some n ∨
        (d' = d ∧ n = mine) ∨ ∃ q ∈ x.puts.set i (.keyed ⟨d, src, .charged mine⟩),
          ∃ src', q = .keyed ⟨d', src', .published n⟩ := by
    intro d' n hn
    by_cases hd : d' = d
    · subst hd
      rw [hsize] at hn
      exact .inr (.inr (.inl ⟨rfl, (Option.some.inj hn).symm⟩))
    · rcases h.cover d' n hn with h0 | hacc | hex
      · exact .inl h0
      · exact .inr (.inl hacc)
      · refine .inr (.inr (.inr (exists_mem_set hi ?_ hex)))
        rintro ⟨src', hp⟩
        cases hp
        exact absurd rfl hd
  by_cases hfree : mine = 0 ∨ ∃ n, x.store.state.accounted.lookup d = some n
  · -- nothing to charge: the write read nothing, or the digest is charged already
    rw [CasStore.account_of_free hfree] at hcalls ⊢
    exact {
      mode := h.mode
      kept := h.kept
      mirror := h.mirror
      books := h.books
      reserved := by
        have hold := h.reserved
        show x.store.pending = weigh _ (x.puts.set i _)
        omega
      budget := by
        have hold := h.budget
        have hc := hclaim x.store.state.committed
        dsimp only
        omega
      healthy := h.healthy
      calls := hcalls
      exact := h.exact
      cover := by
        intro d' n hn
        rcases hcover d' n hn with h0 | hacc | ⟨rfl, rfl⟩ | hex
        · exact .inl h0
        · exact .inr (.inl hacc)
        · rcases hfree with h0 | ⟨m, hm⟩
          · exact .inl h0
          · have hmn := h.exact d' m hm
            rw [hsize] at hmn
            cases hmn
            exact .inr (.inl hm)
        · exact .inr (.inr hex) }
  · rw [not_or, not_exists] at hfree
    have hnone : x.store.state.accounted.lookup d = none := by
      cases hl : x.store.state.accounted.lookup d with
      | none => rfl
      | some n => exact absurd hl (hfree.2 n)
    rw [CasStore.account_of_new hfree.1 hnone] at hcalls ⊢
    exact {
      mode := h.mode
      kept := h.kept
      mirror := rfl
      books := by
        have hold := h.books
        simp only [Map.total_insert_new hnone, id]
        omega
      reserved := by
        have hold := h.reserved
        show x.store.pending = weigh _ (x.puts.set i _)
        omega
      budget := by
        have hold := h.budget
        have hc := hclaim x.store.state.committed
        have hanti : weigh (Putter.meter (Phase.claim capacity (x.store.state.committed + mine)))
            (x.puts.set i (.keyed ⟨d, src, .charged mine⟩)) ≤
            weigh (Putter.meter (Phase.claim capacity x.store.state.committed))
              (x.puts.set i (.keyed ⟨d, src, .charged mine⟩)) :=
          weigh_le_weigh fun q _ => by
            cases q with
            | keyed w => exact Phase.claim_anti hcap (by omega) w.phase
            | _ => exact le_refl _
        dsimp only
        omega
      healthy := h.healthy
      calls := hcalls
      exact := by
        intro d' n hn
        simp only [Map.lookup_insert_eq] at hn
        split at hn
        · next hd => cases hn; rw [hd]; exact hsize
        · exact h.exact d' n hn
      cover := by
        intro d' n hn
        simp only [Map.lookup_insert_eq]
        rcases hcover d' n hn with h0 | hacc | ⟨rfl, rfl⟩ | hex
        · exact .inl h0
        · have hd : d' ≠ d := fun he => by rw [he, hnone] at hacc; cases hacc
          exact .inr (.inl (by rw [if_neg hd]; exact hacc))
        · exact .inr (.inl (if_pos rfl))
        · exact .inr (.inr hex) }

/-- Every transition of a keyed write keeps the invariant. -/
theorem move (h : CapInv H used capacity start aside x) (hcf : H.CollisionFree used)
    (hcap : capacity < u64Max) {i : Nat} {w w' : Writer} {ev : WriteEvent} {s' : CasStore}
    (hi : x.puts[i]? = some (.keyed w)) (hused : ev = .publish → used w.phase.got)
    (hmove : Writer.Moves H x.store w ev s' w') :
    CapInv H used capacity start aside { x with store := s', puts := x.puts.set i (.keyed w') } := by
  have hok := h.calls _ (List.mem_of_getElem? hi)
  have hbudget := h.budget
  have hshare := le_weigh (f := Putter.meter Phase.reserved) (List.mem_of_getElem? hi)
  rw [← h.reserved] at hshare
  cases hmove with
  | direct hm => rw [h.mode] at hm; cases hm
  | fast hm held =>
    refine h.quiet hi ⟨rfl, rfl, rfl, rfl, rfl, rfl⟩ rfl (by simpa [Phase.claim] using hbudget) ?_
      (by simp)
    refine ⟨rfl, ?_⟩
    rcases held with hacc | ⟨-, hhas⟩
    · obtain ⟨n, hn⟩ := Option.isSome_iff_exists.mp hacc
      exact Option.isSome_iff_exists.mpr ⟨n, h.exact _ n hn⟩
    · exact hhas
  | gate hm hacc hnew =>
    exact h.quiet hi (.rfl' _) rfl (by simpa [Phase.claim] using hbudget) rfl (by simp)
  | read hr =>
    exact h.quiet hi (.rfl' _) rfl (by simpa [Phase.claim] using hbudget) hok (by simp)
  | @add d src src' got chunk mine hr =>
    refine h.quiet hi ⟨rfl, rfl, rfl, rfl, rfl, rfl⟩ ?_ ?_ hok (by simp)
    · simp only [Putter.meter_keyed, Phase.reserved]
      omega
    · -- all that is claimed is in `pending`, which the test has seen
      have hle : weigh (Putter.meter (Phase.claim capacity x.store.state.committed)) x.puts ≤
          x.store.pending := by
        rw [h.reserved]
        refine weigh_le_weigh fun q _ => ?_
        cases q with
        | keyed w => exact Phase.claim_le_reserved capacity _ w.phase
        | _ => exact le_refl _
      simp only [Putter.meter_keyed, Phase.claim]
      split
      · next hfits =>
        rw [fits_iff hcap] at hfits
        omega
      · omega
  | failUngated =>
    exact h.quiet hi (.rfl' _) rfl (by simpa [Phase.claim] using hbudget) trivial (by simp)
  | failGated =>
    exact h.quiet hi (.rfl' _) rfl (by simp only [Putter.meter_keyed, Phase.claim]; omega) trivial
      (by simp)
  | load =>
    refine h.quiet hi (.rfl' _) rfl ?_ hok (by simp)
    simp only [Putter.meter_keyed, Phase.claim, h.mirror]
    omega
  | blame hm =>
    exact h.quiet hi (.rfl' _) rfl (by simpa [Phase.claim] using hbudget) trivial (by simp)
  | @accept d src got chunk mine before seen cap hm hfits =>
    rw [h.mode] at hm
    cases hm
    refine h.quiet hi (.rfl' _) rfl ?_ ?_ (by simp)
    · simp only [Putter.meter_keyed, Phase.claim, hfits, if_true]
      omega
    · have hlen : got.length = mine := hok
      simp [CallOk, hlen]
  | @trip d src got chunk mine before seen cap hm hfits =>
    refine h.quiet hi ⟨rfl, rfl, rfl, rfl, rfl, rfl⟩ ?_ ?_ trivial (by simp)
    · simp only [Putter.meter_keyed, Phase.reserved] at hshare ⊢
      omega
    · simp only [Putter.meter_keyed, Phase.claim]
      omega
  | landUngated hv hlock =>
    exact h.land hcf hi (hused rfl) hv rfl (fun c => rfl) trivial (by simp) (.inl hok.2)
  | rejectUngated hv =>
    exact h.quiet hi (.rfl' _) rfl (by simpa [Phase.claim] using hbudget) trivial (by simp)
  | @landGated d src got mine hv hlock =>
    have hlen : got.length = mine := hok
    subst hlen
    refine h.land hcf hi (hused rfl) hv rfl (fun c => rfl) ?_ (by simp) (.inr ⟨src, rfl⟩)
    have hlook := h.lookup_land hcf (hused rfl) hv d
    rw [if_pos rfl] at hlook
    exact congrArg (Option.map List.length) hlook
  | rejectGated hv =>
    exact h.quiet hi (.rfl' _) rfl (by simp only [Putter.meter_keyed, Phase.claim]; omega) trivial
      (by simp)
  | account => exact h.charge hcap hi
  | dropRefused =>
    refine h.quiet hi ⟨rfl, rfl, rfl, rfl, rfl, rfl⟩ ?_ (by simpa [Phase.claim] using hbudget)
      trivial (by simp)
    simp only [Putter.meter_keyed, Phase.reserved] at hshare ⊢
    omega
  | dropCharged =>
    refine h.quiet hi ⟨rfl, rfl, rfl, rfl, rfl, rfl⟩ ?_ (by simpa [Phase.claim] using hbudget)
      trivial (by simp)
    simp only [Putter.meter_keyed, Phase.reserved] at hshare ⊢
    omega
  | @doneOk d src reg =>
    refine h.quiet hi (.deregister _ d reg) ?_ (by simpa [Phase.claim] using hbudget) trivial (by simp)
    obtain ⟨fast, hfast⟩ := x.store.deregister_eq d
    cases reg <;> simp [Phase.reserved, hfast]
  | @doneError d src reg e =>
    refine h.quiet hi (.deregister _ d reg) ?_ (by simpa [Phase.claim] using hbudget) trivial (by simp)
    obtain ⟨fast, hfast⟩ := x.store.deregister_eq d
    cases reg <;> simp [Phase.reserved, hfast]
  | afterWrite =>
    exact h.quiet hi ⟨rfl, rfl, rfl, rfl, rfl, rfl⟩ rfl (by simpa [Phase.claim] using hbudget)
      trivial (by simp)
  | ret =>
    exact h.quiet hi (.rfl' _) rfl (by simpa [Phase.claim] using hbudget) trivial (by simp)

/-- The step lemma. -/
theorem step (h : CapInv H used capacity start aside x) (hcf : H.CollisionFree used)
    (hcap : capacity < u64Max) {a : Act} {y : Sys} (hK : WritesOnly used x a)
    (hs : Sys.step H x a = some y) : CapInv H used capacity start aside y := by
  cases a with
  | put => cases hs; exact h.begin trivial fun f _ => rfl
  | putKeyed d =>
    cases hs
    exact h.begin trivial fun f hf => Nat.le_zero.mp (hf .entered)
  | write i ev =>
    obtain ⟨p, s', p', hi, hp, rfl⟩ := Sys.step_write hs
    rcases Putter.step_cases hp with ⟨w, w', rfl, rfl, hmove⟩ | ⟨rfl, got, rfl, hspool⟩
    · refine h.move hcf hcap hi ?_ hmove
      rintro rfl
      exact hK.2 _ (Sys.publishing_keyed hi)
    · have hbudget := h.budget
      rcases hspool with ⟨got', rfl⟩ | ⟨e, rfl⟩ | ⟨cap, hm, rfl⟩ | ⟨budget, grace, hm, rfl⟩
      · exact h.quiet hi (.rfl' _) rfl (by simpa using hbudget) trivial (by simp)
      · exact h.quiet hi (.rfl' _) rfl (by simpa using hbudget) trivial (by simp)
      · exact h.quiet hi (.rfl' _) rfl (by simpa [Phase.claim] using hbudget) trivial (by simp)
      · rw [h.mode] at hm
        cases hm
  | release d => cases hs; exact h.method ⟨rfl, rfl, rfl, rfl, rfl, rfl⟩ rfl
  | get d => rw [Sys.step_get hs]; exact h.method ⟨rfl, rfl, rfl, rfl, rfl, rfl⟩ rfl
  | evict => cases hK.1
  | evictStep i ev => cases hK.1
  | scrub d => cases hK.1
  | scrubStep i ev => cases hK.1
  | quarantine d stat => cases hK.1
  | corrupt d bytes => cases hK.1

/-- A store opened over healthy files starts in the invariant. -/
theorem new {inner : LocalCas} {now : Nat} {blobs : List LocalBlob}
    {quarantine : List QuarantinedBlob} (hl : inner.IterLocal blobs)
    (hq : inner.IterQuarantine quarantine)
    (hhealthy : ∀ d b, inner.blobs.lookup d = some b → used b ∧ d.verify H b = true) :
    CapInv H used capacity inner.liveBytes inner.quarantineBytes
      (.idle (.new inner (.writeOnly capacity) now blobs quarantine)) where
  mode := rfl
  kept := Map.total_congr fun id => by simp [Sys.idle, CasStore.new_quarantined hq]
  mirror := rfl
  books := CasStore.new_committed hl hq
  reserved := rfl
  budget := by
    simp only [Sys.idle, weigh_nil, CasStore.new_committed_eq_bytes hl hq]
    omega
  healthy := hhealthy
  calls := fun p hp => absurd hp List.not_mem_nil
  exact := fun d n hn => by
    simp only [Sys.idle, CasStore.new_accounted hl] at hn
    exact hn
  cover := fun d n hn => .inr (.inl (by simp only [Sys.idle, CasStore.new_accounted hl]; exact hn))

/-- The live bytes are charged, or about to be. -/
theorem liveBytes_le (h : CapInv H used capacity start aside x) : x.store.inner.liveBytes ≤
    Map.total id x.store.state.accounted + weigh (Putter.meter Phase.uncharged) x.puts := by
  have hcover := Map.total_le_of_lookup (f := List.length) (g := id) (m := x.store.inner.blobs)
    (n := x.store.state.accounted)
    (fun d => weigh (fun p : Putter => if p.digest? = some d then p.meter Phase.uncharged else 0) x.puts)
    fun d b hb => by
      have hsize : x.store.inner.size d = some b.length := by rw [LocalCas.size, hb]; rfl
      rcases h.cover d _ hsize with h0 | hacc | ⟨p, hp, src, rfl⟩
      · omega
      · rw [hacc]
        simp
      · have hle := le_weigh
          (f := fun p : Putter => if p.digest? = some d then p.meter Phase.uncharged else 0) hp
        have hd : (Putter.keyed ⟨d, src, .published b.length⟩).digest? = some d := rfl
        simp only [hd, if_true, Putter.meter_keyed, Phase.uncharged] at hle
        omega
  have hsplit := sum_weigh_key_le (Putter.meter Phase.uncharged) Putter.digest?
    x.store.inner.blobs.keys x.puts
  unfold LocalCas.liveBytes
  omega

end CapInv

/-- **Capacity safety.** In every interleaving of `put` and `put_keyed` calls on a `write_only` store
opened over healthy files, the live bytes are at most `committed` plus the bytes that published
writers have still to charge, and at most the capacity or the live bytes at startup. The capacity is
below `u64::MAX`, where the gate's saturating test would accept everything; a configured one is, as
TOML integers are signed. -/
theorem write_only_capacity_safe {H : HashFn} {used : Bytes → Prop} (hcf : H.CollisionFree used)
    {capacity : Nat} (hcap : capacity < u64Max) {inner : LocalCas} {now : Nat}
    {blobs : List LocalBlob} {quarantine : List QuarantinedBlob} (hl : inner.IterLocal blobs)
    (hq : inner.IterQuarantine quarantine)
    (hhealthy : ∀ d b, inner.blobs.lookup d = some b → used b ∧ d.verify H b = true)
    {acts : List Act} {x : Sys}
    (hrun : Run (Sys.step H) (WritesOnly used)
      (.idle (.new inner (.writeOnly capacity) now blobs quarantine)) acts x) :
    x.store.inner.liveBytes ≤
        x.store.committed + weigh (Putter.meter Phase.uncharged) x.puts ∧
      x.store.inner.liveBytes ≤ max capacity inner.liveBytes := by
  have h : CapInv H used capacity inner.liveBytes inner.quarantineBytes x :=
    hrun.keeps (fun hK hI hs => hI.step hcf hcap hK hs) (.new hl hq hhealthy)
  have hlive := h.liveBytes_le
  have hbooks := h.books
  have hbudget := h.budget
  have hclaims : weigh (Putter.meter Phase.uncharged) x.puts ≤
      weigh (Putter.meter (Phase.claim capacity x.store.state.committed)) x.puts :=
    weigh_le_weigh fun p _ => by
      cases p with
      | keyed w => cases hw : w.phase <;> simp [Phase.uncharged, Phase.claim, hw]
      | _ => exact le_refl _
  have hkept := h.kept
  have hmirror := h.mirror
  omega

/-- A store of four bytes over a file of one. -/
def oneByteStore : CasStore :=
  .new ⟨.disk, Finmap.singleton (.compute .short [7]) [7], ∅, false⟩ (.writeOnly 4) 0
    [⟨.compute .short [7], 1⟩] []

/-- The file is put again without the gate, while two writes of two bytes meet at it. -/
def meetAtGate : List Act :=
  [.putKeyed (.compute .short [1, 2]), .putKeyed (.compute .short [3, 4]),
    .putKeyed (.compute .short [7]), .write 2 (.decide false), .write 0 (.decide false),
    .write 1 (.decide false), .write 0 (.read [1, 2]), .write 1 (.read [3, 4]), .write 0 .load,
    .write 0 .settle, .write 2 (.read [7]), .write 1 .load, .write 1 .settle, .write 2 (.read []),
    .write 2 .publish, .write 0 (.read []), .write 0 .load, .write 0 .settle, .write 0 .publish]

/-- The second new write is refused for what the first has pending; the first has published its two
bytes and has still to charge them. -/
def metAtGate : List Putter :=
  [.keyed ⟨.compute .short [1, 2], .stream, .published 2⟩,
    .keyed ⟨.compute .short [3, 4], .stream, .refused 0 none⟩,
    .keyed ⟨.compute .short [7], .stream, .ungatedDone true (.ok ())⟩]

theorem write_only_capacity_safe_interleaved :
    ∃ x, run (Sys.step .short) (WritesOnly fun b => b.length < 32) (.idle oneByteStore) meetAtGate =
        some x ∧
      x.puts = metAtGate ∧
      x.store.committed = 1 ∧
      x.store.inner.liveBytes ≤
        x.store.committed + weigh (Putter.meter Phase.uncharged) x.puts ∧
      x.store.inner.liveBytes ≤ 4 := by
  obtain ⟨x, hx, hputs, hcommitted⟩ : ∃ x, run (Sys.step .short)
      (WritesOnly fun b => b.length < 32) (.idle oneByteStore) meetAtGate = some x ∧ x.puts = metAtGate ∧
        x.store.committed = 1 :=
    run_exists (by decide +kernel)
  have hhealthy : ∀ d b, (Finmap.singleton (Digest.compute .short [7]) [7] : Map Digest Bytes).lookup d
      = some b → b.length < 32 ∧ d.verify .short b = true := by
    intro d b hb
    by_cases hd : d = .compute .short [7]
    · subst hd
      rw [Finmap.lookup_singleton_eq] at hb
      cases hb
      decide
    · rw [Finmap.lookup_eq_none.mpr (by simpa using hd)] at hb
      cases hb
  have hsafe := write_only_capacity_safe HashFn.short_collisionFree (by decide) (by decide)
    (by decide) hhealthy (run_sound hx)
  exact ⟨x, hx, hputs, hcommitted, hsafe.1, hsafe.2.trans (by decide +kernel)⟩

end NessieStore
