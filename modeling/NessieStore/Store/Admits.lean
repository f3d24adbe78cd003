import NessieStore.Store.Sequential

/-!
# What `admits` says of the gate

`admits` is one comparison; the gate compares at every read, with what it has reserved so far, and
once more at the read that finds the end. For a blob that the store neither holds nor has charged,
with no other write running, they agree: the write returns `Ok` if `admits` said so, and
`CapacityExceeded` if it did not, however the source cuts the blob into reads
(`admits_predicts_gate`).

The counters are naturals, and `committed + n` is to fit in 64 bits: past that both sides saturate, and
the gate saturates twice.
-/

set_option autoImplicit false

namespace NessieStore

open Lib

/-- The event is none of a backend that fails. -/
def WriteEvent.backendOk : WriteEvent → Prop
  | .fail _ => False
  | .decide statFailed => statFailed = false
  | _ => True

/-- The bytes that a read returned. -/
def WriteEvent.chunk? : WriteEvent → Option Bytes
  | .read chunk => some chunk
  | _ => none

/-- A keyed write alone, over a backend that does not fail. -/
abbrev SoundRun (H : HashFn) : CasStore × Writer → List WriteEvent → CasStore × Writer → Prop :=
  Run (fun x ev => Writer.step H x.1 x.2 ev) fun _ ev => ev.backendOk

/-- Saturation only helps: what the gate refuses does not fit. -/
theorem lt_of_not_fits {capacity seen before n : Nat} (h : fits capacity seen before n = false) :
    capacity < seen + before + n := by
  have hover : ¬ saturatingAdd (saturatingAdd seen before) n ≤ capacity := of_decide_eq_false h
  have houter := saturatingAdd_le (saturatingAdd seen before) n
  have hinner := saturatingAdd_le seen before
  omega

namespace CasStore

variable {H : HashFn} {s : CasStore} {d : Digest} {src : Bytes} {capacity : Nat}

/-! ## How a write can end -/

/-- Where a gated write stands: an error is one of the gate, and the blob does not fit. -/
def Refuses (s : CasStore) (src : Bytes) (capacity : Nat) (w : Writer) : Prop :=
  match w.phase with
  | .ungated .. | .ungatedDone .. => False
  | .refused _ none => capacity < s.committed + src.length
  | .refused _ (some e) | .returned (.error e) =>
    capacity < s.committed + src.length ∧ ∃ used incoming, e = .capacityExceeded used incoming capacity
  | _ => True

theorem Refuses.step (hm : s.mode = .writeOnly capacity) (hpending : s.pending = 0)
    (hacc : s.state.accounted.lookup d = none) (hnew : s.inner.has d = false)
    (hv : d.verify H src = true) {t t' : CasStore} {w w' : Writer} {ev : WriteEvent}
    (halone : Alone H s d src (t, w)) (h : Refuses s src capacity w) (hev : ev.backendOk)
    (hmove : Writer.Moves H t w ev t' w') : Refuses s src capacity w' := by
  cases hmove with
  | direct hlru =>
    obtain ⟨rfl, rfl, rfl⟩ := halone
    cases hm.symm.trans hlru
  | fast hwo held =>
    obtain ⟨rfl, rfl, rfl⟩ := halone
    rcases held with hsome | ⟨-, hhas⟩
    · rw [hacc] at hsome
      cases hsome
    · cases hnew.symm.trans hhas
  | failUngated => exact hev.elim
  | failGated => exact hev.elim
  | blame hwo =>
    obtain ⟨rfl, hsame, -⟩ := halone
    cases hm.symm.trans (hsame.mode.symm.trans hwo)
    exact ⟨h, _, _, rfl⟩
  | trip hwo hfits =>
    obtain ⟨rfl, ⟨hsame, -, hlen, rest, -, hsrc, -⟩, -, rfl, rfl⟩ := halone
    cases hm.symm.trans (hsame.mode.symm.trans hwo)
    -- the test failed on a part of the blob, so the whole does not fit
    have hover := lt_of_not_fits hfits
    have hpart := congrArg List.length hsrc
    simp only [List.length_append] at hpart
    show capacity < s.committed + src.length
    omega
  | landUngated hv' hlock => exact h.elim
  | rejectUngated hbad => exact h.elim
  | rejectGated hbad =>
    obtain ⟨rfl, ⟨-, -, -, hstream⟩, -⟩ := halone
    rw [hstream.eq_of_eof, hv] at hbad
    cases hbad
  | dropRefused => exact h
  | doneOk => exact h.elim
  | doneError => exact h.elim
  | read hr => exact h.elim
  | _ => trivial

/-- What `admits` answers, where nothing is pending and nothing saturates. -/
theorem admits_iff (hm : s.mode = .writeOnly capacity) (hpending : s.pending = 0) {n : Nat}
    (h64 : s.committed + n ≤ u64Max) : s.admits n = true ↔ s.committed + n ≤ capacity := by
  unfold admits
  rw [hm, hpending]
  show decide (saturatingAdd (s.committed + 0) n ≤ capacity) = true ↔ _
  rw [decide_eq_true_iff, saturatingAdd]
  omega

/-- A write that ends has asked the gate what `admits` answers. -/
theorem outcome_of_run (hm : s.mode = .writeOnly capacity) (hpending : s.pending = 0)
    (hacc : s.state.accounted.lookup d = none) (hnew : s.inner.has d = false)
    (hv : d.verify H src = true) (h64 : s.committed + src.length ≤ u64Max) {evs : List WriteEvent}
    {t : CasStore} {source : Source} {out : Except BackendError Unit}
    (hrun : SoundRun H (s, ⟨d, .body src, .entered⟩) evs (t, ⟨d, source, .returned out⟩)) :
    if s.admits src.length then out = .ok ()
    else ∃ used incoming, out = .error (.capacityExceeded used incoming capacity) := by
  obtain ⟨halone, hrefuses⟩ : Alone H s d src (t, ⟨d, source, .returned out⟩) ∧
      Refuses s src capacity ⟨d, source, .returned out⟩ := by
    refine hrun.keeps (I := fun x => Alone H s d src x ∧ Refuses s src capacity x.2) ?_
      ⟨⟨rfl, rfl, rfl⟩, trivial⟩
    intro x y ev hev h hstep
    have hmove := Writer.moves_of_step hstep
    exact ⟨h.1.step hmove, h.2.step hm hpending hacc hnew hv h.1 hev hmove⟩
  have hadmits := admits_iff hm hpending h64
  cases out with
  | ok u =>
    -- the blob went through the gate, whose last test was on all of it
    obtain ⟨-, hwrote, -⟩ := halone
    cases hwrote with
    | cached hv' hlru h => cases hm.symm.trans hlru
    | again hv' hwo held h =>
      rcases held with hsome | hhas
      · rw [hacc] at hsome
        cases hsome
      · cases hnew.symm.trans hhas
    | admitted hv' hwo hnone hfits h =>
      cases hm.symm.trans hwo
      have hle := of_decide_eq_true hfits
      rw [hpending] at hle
      simp only [saturatingAdd] at hle
      rw [if_pos (hadmits.mpr (by omega))]
  | error e =>
    obtain ⟨hover, used, incoming, rfl⟩ := hrefuses
    have hnot : ¬ s.admits src.length = true := fun h => by
      have hle := hadmits.mp h
      omega
    rw [if_neg hnot]
    exact ⟨used, incoming, rfl⟩

/-! ## That a write ends -/

theorem read_body {chunk rest : Bytes} (hend : chunk = [] → rest = []) :
    (Source.body (chunk ++ rest)).read chunk = some (.body rest) := by
  have hcond : chunk.isPrefixOf (chunk ++ rest) = true ∧ (chunk = [] → chunk ++ rest = []) := by
    refine ⟨List.isPrefixOf_iff_prefix.mpr (List.prefix_append chunk rest), fun hnil => ?_⟩
    rw [hnil, hend hnil, List.append_nil]
  show (if chunk.isPrefixOf (chunk ++ rest) = true ∧ (chunk = [] → chunk ++ rest = []) then
    some (Source.body ((chunk ++ rest).drop chunk.length)) else none) = _
  rw [if_pos hcond, List.drop_left]

/-- What a read through the gate leads to. -/
def judged (t : CasStore) (d : Digest) (capacity : Nat) (rest got chunk : Bytes) (mine : Nat) :
    CasStore × Writer :=
  if fits capacity t.committed t.pending chunk.length then
    ({ t with pending := t.pending + chunk.length },
      ⟨d, .body rest, .gated (got ++ chunk) (mine + chunk.length) chunk.isEmpty⟩)
  else
    ({ t with pending := t.pending + chunk.length - chunk.length }, ⟨d, .body rest, .refused mine none⟩)

theorem run_read {t : CasStore} (hm : t.mode = .writeOnly capacity) (chunk : Bytes) {rest : Bytes}
    (hend : chunk = [] → rest = []) (got : Bytes) (mine : Nat) :
    SoundRun H (t, ⟨d, .body (chunk ++ rest), .gated got mine false⟩) [.read chunk, .load, .settle]
      (judged t d capacity rest got chunk mine) := by
  refine .cons trivial (by simp only [Writer.step, read_body hend]; rfl) ?_
  refine .cons trivial rfl ?_
  refine .cons trivial ?_ (.nil _)
  simp only [Writer.step, hm, judged]
  split <;> rfl

/-- A gate that has tripped is dropped, and the write returns. -/
theorem run_refused {t : CasStore} (hm : t.mode = .writeOnly capacity) (source : Source) (mine : Nat) :
    ∃ t' out, SoundRun H (t, ⟨d, source, .refused mine none⟩) [.load, .release]
      (t', ⟨d, source, .returned out⟩) := by
  have hload : Writer.step H t ⟨d, source, .refused mine none⟩ .load =
      some (t, ⟨d, source, .refused mine (some (.capacityExceeded t.committed mine capacity))⟩) := by
    simp only [Writer.step, hm]
  refine ⟨{ t with pending := t.pending - mine }, .error (.capacityExceeded t.committed mine capacity), ?_⟩
  exact .cons trivial hload (.cons trivial rfl (.nil _))

/-- At the end of the blob it is published, charged and guarded. -/
theorem run_accepted (hv : d.verify H src = true) {t : CasStore} (hlock : t.inner.commitLock = false)
    (source : Source) (mine : Nat) :
    ∃ t' out, SoundRun H (t, ⟨d, source, .gated src mine true⟩)
      [.publish, .account, .release, .afterWrite 0, .ret] (t', ⟨d, source, .returned out⟩) := by
  have hpublish : Writer.step H t ⟨d, source, .gated src mine true⟩ .publish =
      some (t.land d src, ⟨d, source, .published mine⟩) := by
    simp only [Writer.step, hv, hlock, if_true, Bool.false_eq_true, if_false]
  let charged := (t.land d src).account d mine
  refine ⟨({ charged with pending := charged.pending - mine } : CasStore).afterWrite d 0, .ok (), ?_⟩
  refine .cons trivial hpublish ?_
  refine .cons trivial rfl ?_
  refine .cons trivial rfl ?_
  exact .cons trivial rfl (.cons trivial rfl (.nil _))

/-- From the gate on, whatever is left of the blob and however it is cut. -/
theorem run_from_gate (hv : d.verify H src = true) {chunks : List Bytes} (hchunks : [] ∉ chunks)
    {t : CasStore} (got : Bytes) (mine : Nat) (hm : t.mode = .writeOnly capacity)
    (hlock : t.inner.commitLock = false) (hsrc : got ++ chunks.flatten = src) :
    ∃ evs t' source out, evs.filterMap WriteEvent.chunk? <+: chunks ++ [[]] ∧
      SoundRun H (t, ⟨d, .body chunks.flatten, .gated got mine false⟩) evs
        (t', ⟨d, source, .returned out⟩) := by
  induction chunks generalizing t got mine with
  | nil =>
    have hread : SoundRun H (t, ⟨d, .body [], .gated got mine false⟩) [.read [], .load, .settle]
        (judged t d capacity [] got [] mine) := run_read hm [] (fun _ => rfl) got mine
    unfold judged at hread
    by_cases hfits : fits capacity t.committed t.pending 0 = true
    · have hgot : got ++ [] = src := hsrc
      rw [List.length_nil, if_pos hfits, hgot] at hread
      obtain ⟨t', out, hrest⟩ := run_accepted hv hlock (.body []) mine
      exact ⟨_, t', _, out, ⟨[], rfl⟩, hread.append hrest⟩
    · rw [List.length_nil, if_neg hfits] at hread
      obtain ⟨t', out, hrest⟩ := run_refused hm (.body []) mine
      exact ⟨_, t', _, out, ⟨[], rfl⟩, hread.append hrest⟩
  | cons chunk chunks ih =>
    have hne : chunk ≠ [] := fun h => hchunks (h ▸ List.mem_cons_self)
    have hread : SoundRun H (t, ⟨d, .body (chunk ++ chunks.flatten), .gated got mine false⟩)
        [.read chunk, .load, .settle] (judged t d capacity chunks.flatten got chunk mine) :=
      run_read hm chunk (fun h => absurd h hne) got mine
    unfold judged at hread
    by_cases hfits : fits capacity t.committed t.pending chunk.length = true
    · rw [if_pos hfits, List.isEmpty_eq_false_iff.mpr hne] at hread
      rw [List.flatten_cons, ← List.append_assoc] at hsrc
      let t₁ : CasStore := { t with pending := t.pending + chunk.length }
      have hm₁ : t₁.mode = .writeOnly capacity := hm
      have hrest : ∃ evs t' source out, evs.filterMap WriteEvent.chunk? <+: chunks ++ [[]] ∧
          SoundRun H (t₁, ⟨d, .body chunks.flatten, .gated (got ++ chunk) (mine + chunk.length) false⟩)
            evs (t', ⟨d, source, .returned out⟩) :=
        ih (fun h => hchunks (List.mem_cons_of_mem _ h)) _ _ hm₁ hlock hsrc
      obtain ⟨evs, t', source, out, hreads, hrest⟩ := hrest
      have hall := hread.append hrest
      rw [← List.flatten_cons] at hall
      refine ⟨_, t', source, out, ?_, hall⟩
      exact (List.prefix_cons_inj chunk).mpr hreads
    · rw [if_neg hfits, Nat.add_sub_cancel] at hread
      obtain ⟨t', out, hrest⟩ := run_refused hm (.body chunks.flatten) mine
      exact ⟨_, t', _, out, ⟨chunks ++ [[]], rfl⟩, hread.append hrest⟩

end CasStore

/-- `put_keyed` of a blob that is neither charged nor held, with no other write running, returns for
every way of cutting the blob into reads, and it returns what `admits` foretold. -/
theorem admits_predicts_gate {H : HashFn} {s : CasStore} {capacity : Nat}
    (hm : s.mode = .writeOnly capacity) (hpending : s.pending = 0)
    (hlock : s.inner.commitLock = false) {d : Digest} {src : Bytes} (hv : d.verify H src = true)
    (hacc : s.state.accounted.lookup d = none) (hnew : s.inner.has d = false)
    (h64 : s.committed + src.length ≤ u64Max) :
    (∀ chunks : List Bytes, [] ∉ chunks → chunks.flatten = src →
      ∃ evs t source out, evs.filterMap WriteEvent.chunk? <+: chunks ++ [[]] ∧
        SoundRun H (s, ⟨d, .body src, .entered⟩) evs (t, ⟨d, source, .returned out⟩)) ∧
    ∀ evs t source out,
      SoundRun H (s, ⟨d, .body src, .entered⟩) evs (t, ⟨d, source, .returned out⟩) →
        if s.admits src.length then out = .ok ()
        else ∃ used incoming, out = .error (.capacityExceeded used incoming capacity) := by
  refine ⟨?_, fun evs t source out hrun =>
    CasStore.outcome_of_run hm hpending hacc hnew hv h64 hrun⟩
  rintro chunks hchunks rfl
  obtain ⟨evs, t, source, out, hreads, hrun⟩ :=
    CasStore.run_from_gate hv hchunks [] 0 hm hlock rfl
  have hdecide : Writer.step H s ⟨d, .body chunks.flatten, .entered⟩ (.decide false) =
      some (s, ⟨d, .body chunks.flatten, .gated [] 0 false⟩) := by
    simp [Writer.step, hm, hacc, hnew]
  exact ⟨.decide false :: evs, t, source, out, hreads, .cons rfl hdecide hrun⟩

/-- A store of three bytes, empty. -/
def emptyOfThree : CasStore := .new ⟨.disk, ∅, ∅, false⟩ (.writeOnly 3) 0 [] []

/-- Three bytes in two reads are admitted, four are refused. -/
theorem admits_predicts_gate_two_chunks :
    (∃ evs t source, evs.filterMap WriteEvent.chunk? <+: [[1], [2, 3], []] ∧
      SoundRun .short (emptyOfThree, ⟨.compute .short [1, 2, 3], .body [1, 2, 3], .entered⟩) evs
        (t, ⟨.compute .short [1, 2, 3], source, .returned (.ok ())⟩)) ∧
    ∃ evs t source used incoming, evs.filterMap WriteEvent.chunk? <+: [[1], [2, 3, 4], []] ∧
      SoundRun .short (emptyOfThree, ⟨.compute .short [1, 2, 3, 4], .body [1, 2, 3, 4], .entered⟩) evs
        (t, ⟨.compute .short [1, 2, 3, 4], source,
          .returned (.error (.capacityExceeded used incoming 3))⟩) := by
  constructor
  · obtain ⟨hends, hout⟩ := admits_predicts_gate (rfl : emptyOfThree.mode = .writeOnly 3) rfl
      rfl (by decide +kernel : (Digest.compute .short [1, 2, 3]).verify .short [1, 2, 3] = true)
      (by decide +kernel) (by decide +kernel) (by decide +kernel)
    obtain ⟨evs, t, source, out, hreads, hrun⟩ := hends [[1], [2, 3]] (by decide) rfl
    have hok := hout evs t source out hrun
    rw [if_pos (by decide +kernel)] at hok
    exact ⟨evs, t, source, hreads, hok ▸ hrun⟩
  · obtain ⟨hends, hout⟩ := admits_predicts_gate (rfl : emptyOfThree.mode = .writeOnly 3) rfl
      rfl (by decide +kernel : (Digest.compute .short [1, 2, 3, 4]).verify .short [1, 2, 3, 4] = true)
      (by decide +kernel) (by decide +kernel) (by decide +kernel)
    obtain ⟨evs, t, source, out, hreads, hrun⟩ := hends [[1], [2, 3, 4]] (by decide) rfl
    have herr := hout evs t source out hrun
    rw [if_neg (by decide +kernel)] at herr
    obtain ⟨used, incoming, rfl⟩ := herr
    exact ⟨evs, t, source, used, incoming, hreads, hrun⟩

end NessieStore
