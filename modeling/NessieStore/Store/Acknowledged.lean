import NessieStore.Store.System

/-!
# Acknowledged writes and a concurrent eviction pass

A write is guarded from eviction by `in_flight`, which `after_write` fills after the backend has
published the blob, and an eviction pass reads once, before it reclaims anything. So a pass can
reclaim what a write has acknowledged meanwhile. `acknowledged_write_lost` is such a run: a new blob
is in the inventory, not yet in the guard, and reclaimed after its `put_keyed` returned.

`acknowledged_write_held` says which schedules are safe (`QuietPasses`). Where a pass takes its guard
snapshot, no write of a blob of its inventory stands between its publish and its `after_write`; from
there until the pass has come to a blob it chose, no write of that blob publishes; and the guard of a
digest is not released under a write about to return. Then nothing that a pass has chosen is in flight
or under a write that has published (`Guarded.spared`), so an acknowledged blob stays until it is
released.
-/

set_option autoImplicit false

namespace NessieStore

open Lib

/-- Writes, eviction passes, releases and reads. -/
def Act.writesAndEvicts : Act → Bool
  | .put | .putKeyed _ | .write _ _ | .evict | .evictStep _ _ | .release _ | .get _ => true
  | _ => false

/-- The digest whose guard the step releases. -/
def Act.releasing : Act → Option Digest
  | .release d => some d
  | _ => none

/-- The digests that a pass has chosen from its snapshots and has not come to yet. -/
def Evictor.awaiting : Evictor → List Digest
  | .chosen blobs _ => blobs.map LocalBlob.digest
  | .draining queue _ _ | .reclaimed _ _ queue _ _ => queue.map fun v => v.1.digest
  | _ => []

/-- The inventory for which the step takes the guard snapshot. -/
def Sys.snapshotting (x : Sys) : Act → List LocalBlob
  | .evictStep i (.snapshot _) =>
    match x.evicts[i]? with
    | some (.listed _ blobs) => blobs
    | _ => []
  | _ => []

/-- No write publishes what a pass has chosen, none of a listed blob stands between publish and
`after_write` at a guard snapshot, and no guard is released under a write about to return. -/
def QuietPasses (H : HashFn) (x : Sys) (a : Act) : Prop :=
  a.writesAndEvicts = true ∧
    (∀ q ∈ x.publishing a, q.1.verify H q.2 = true → ∀ e ∈ x.evicts, q.1 ∉ e.awaiting) ∧
    (∀ b ∈ x.snapshotting a, ∀ p ∈ x.puts, p.landedOn b.digest = true → p.guarding b.digest = true) ∧
    ∀ d ∈ a.releasing, ∀ p ∈ x.puts, p.guarding d = false

instance (H : HashFn) (x : Sys) (a : Act) : Decidable (QuietPasses H x a) :=
  inferInstanceAs (Decidable (_ ∧ _ ∧ _ ∧ _))

/-- A pass comes to wait for a blob only at its snapshot, of a listed blob that is not in flight. -/
theorem Evictor.Moves.awaiting {s s' : CasStore} {e e' : Evictor} {ev : EvictEvent}
    (h : Evictor.Moves s e ev s' e') {d : Digest} (hd : d ∈ e'.awaiting) :
    d ∈ e.awaiting ∨ d ∉ s.state.inFlight ∧
      ∃ now pinned blobs, ev = .snapshot now ∧ e = .listed pinned blobs ∧ ∃ b ∈ blobs, b.digest = d := by
  cases h with
  | snapshot hm =>
    obtain ⟨b, hb, rfl⟩ := List.mem_map.mp hd
    exact .inr ⟨(mem_candidates hb).2, _, _, _, rfl, rfl, b, List.mem_of_mem_filter hb, rfl⟩
  | order =>
    obtain ⟨v, hv, rfl⟩ := List.mem_map.mp hd
    exact .inl (List.mem_map_of_mem (mem_victims hv))
  | skip hnot => exact .inl (List.mem_cons_of_mem _ hd)
  | reclaim hm hover hheld => exact .inl (List.mem_cons_of_mem _ hd)
  | forget => exact .inl hd
  | _ => cases hd

/-- What has been published is held until the write returns, and guarded at its end; what a pass has
chosen is neither in flight nor under a write that has published. -/
structure Guarded (x : Sys) : Prop where
  held : ∀ w, .keyed w ∈ x.puts → w.phase.landed = true → x.store.inner.has w.expected = true
  guard : ∀ w, .keyed w ∈ x.puts → w.phase = .guarded → w.expected ∈ x.store.state.inFlight
  spared : ∀ e ∈ x.evicts, ∀ d ∈ e.awaiting, d ∉ x.store.state.inFlight ∧
    ∀ w, .keyed w ∈ x.puts → w.phase.landed = true → w.expected ≠ d

namespace Guarded

variable {H : HashFn} {x y : Sys}

theorem idle (s : CasStore) : Guarded (.idle s) where
  held := fun _ hw => absurd hw List.not_mem_nil
  guard := fun _ hw => absurd hw List.not_mem_nil
  spared := fun _ he => absurd he List.not_mem_nil

/-- A call starts that has published nothing. -/
theorem begin (h : Guarded x) {p : Putter} (hp : ∀ w, p = .keyed w → w.phase = .entered) :
    Guarded { x with puts := x.puts ++ [p] } := by
  have hold : ∀ w, .keyed w ∈ x.puts ++ [p] → .keyed w ∈ x.puts ∨ w.phase = .entered := by
    intro w hw
    rcases List.mem_append.mp hw with hw | hw
    · exact .inl hw
    · exact .inr (hp w (List.mem_singleton.mp hw).symm)
  refine ⟨fun w hw hl => ?_, fun w hw hg => ?_, fun e he d hd => ?_⟩
  · rcases hold w hw with hw | hph
    · exact h.held w hw hl
    · rw [hph] at hl; cases hl
  · rcases hold w hw with hw | hph
    · exact h.guard w hw hg
    · rw [hph] at hg; cases hg
  · refine ⟨(h.spared e he d hd).1, fun w hw hl => ?_⟩
    rcases hold w hw with hw | hph
    · exact (h.spared e he d hd).2 w hw hl
    · rw [hph] at hl; cases hl

/-- A keyed write moves on. It loses neither blobs nor guards, and it guards or publishes nothing
that a pass has chosen. -/
theorem move (h : Guarded x) {i : Nat} {w w' : Writer} {ev : WriteEvent} {s' : CasStore}
    (hi : x.puts[i]? = some (.keyed w)) (hmove : Writer.Moves H x.store w ev s' w')
    (hpub : ∀ q ∈ x.publishing (.write i ev), q.1.verify H q.2 = true →
      ∀ e ∈ x.evicts, q.1 ∉ e.awaiting) :
    Guarded { x with store := s', puts := x.puts.set i (.keyed w') } where
  held := fun v hv hl => by
    rcases List.mem_or_eq_of_mem_set hv with hold | hnew
    · exact hmove.has_mono _ (h.held v hold hl)
    · cases hnew
      exact hmove.has_of_landed (h.held w (List.mem_of_getElem? hi)) hl
  guard := fun v hv hg => by
    rcases List.mem_or_eq_of_mem_set hv with hold | hnew
    · exact hmove.inFlight_subset (h.guard v hold hg)
    · cases hnew
      exact hmove.mem_inFlight_of_guarded hg
  spared := fun e he d hd => by
    obtain ⟨hfree, hclear⟩ := h.spared e he d hd
    have hw := hclear w (List.mem_of_getElem? hi)
    refine ⟨?_, fun v hv hl => ?_⟩
    · rcases hmove.inFlight_cases with heq | ⟨hlanded, heq⟩
      · rw [heq]
        exact hfree
      · rw [heq, Finset.mem_insert, not_or]
        exact ⟨Ne.symm (hw hlanded), hfree⟩
    · rcases List.mem_or_eq_of_mem_set hv with hold | hnew
      · exact hclear v hold hl
      · cases hnew
        rw [hmove.expected_eq]
        rcases hmove.landed_cases hl with hlanded | ⟨rfl, hv', -⟩
        · exact hw hlanded
        · rintro rfl
          exact hpub _ (Sys.publishing_keyed hi) hv' e he hd

/-- A pass moves on. What it now waits for was in the inventory of its snapshot and not in flight,
and a write of it that had published would have been guarding it. -/
theorem evict (h : Guarded x) {i : Nat} {e e' : Evictor} {ev : EvictEvent} {s' : CasStore}
    (hi : x.evicts[i]? = some e) (hmove : Evictor.Moves x.store e ev s' e')
    (hsnap : ∀ b ∈ x.snapshotting (.evictStep i ev), ∀ p ∈ x.puts,
      p.landedOn b.digest = true → p.guarding b.digest = true) :
    Guarded { x with store := s', evicts := x.evicts.set i e' } := by
  have hin : s'.state.inFlight = x.store.state.inFlight := by cases hmove <;> rfl
  refine ⟨fun w hw hl => ?_, fun w hw hg => ?_, fun f hf d hd => ?_⟩
  · have hheld := h.held w hw hl
    cases hmove with
    | @reclaim budget grace victim sole queue used report hm hover _ =>
      have hne := (h.spared _ (List.mem_of_getElem? hi) victim.digest List.mem_cons_self).2 w hw hl
      simp [hne, hheld]
    | _ => exact hheld
  · show w.expected ∈ s'.state.inFlight
    rw [hin]
    exact h.guard w hw hg
  · show d ∉ s'.state.inFlight ∧ _
    rw [hin]
    rcases List.mem_or_eq_of_mem_set hf with hold | rfl
    · exact h.spared f hold d hd
    · rcases hmove.awaiting hd with hd | ⟨hfree, now, pinned, blobs, rfl, rfl, b, hb, rfl⟩
      · exact h.spared e (List.mem_of_getElem? hi) d hd
      · refine ⟨hfree, fun w hw hl heq => hfree ?_⟩
        have hguarding := hsnap b (by simpa [Sys.snapshotting, hi] using hb) _ hw
          (by simp [Putter.landedOn, heq, hl])
        rw [← heq]
        refine h.guard w hw ?_
        obtain ⟨expected, src, phase⟩ := w
        cases phase with
        | guarded => rfl
        | _ => simp [Putter.guarding] at hguarding

/-- The step lemma. -/
theorem step (h : Guarded x) {a : Act} (hK : QuietPasses H x a) (hs : Sys.step H x a = some y) :
    Guarded y := by
  obtain ⟨hact, hpub, hsnap, hrelease⟩ := hK
  cases a with
  | put => cases hs; exact h.begin (by simp)
  | putKeyed d => cases hs; exact h.begin fun w hw => by cases hw; rfl
  | write i ev =>
    obtain ⟨p, s', p', hi, hp, rfl⟩ := Sys.step_write hs
    rcases Putter.step_cases hp with ⟨w, w', rfl, rfl, hmove⟩ | ⟨rfl, got, rfl, hspool⟩
    · exact h.move hi hmove hpub
    · -- a `put` that comes to its end has published nothing
      have hold : ∀ w, .keyed w ∈ x.puts.set i p' → .keyed w ∈ x.puts ∨
          w.phase.landed = false ∧ w.phase ≠ .guarded := by
        intro w hw
        rcases List.mem_or_eq_of_mem_set hw with hw | rfl
        · exact .inl hw
        · rcases hspool with ⟨_, hc⟩ | ⟨_, hc⟩ | ⟨_, -, hc⟩ | ⟨_, _, -, hc⟩ <;> cases hc
          · exact .inr ⟨rfl, by simp⟩
          · exact .inr ⟨rfl, by simp⟩
      refine ⟨fun w hw hl => ?_, fun w hw hg => ?_, fun e he d hd => ?_⟩
      · exact h.held w ((hold w hw).resolve_right (by simp [hl])) hl
      · exact h.guard w ((hold w hw).resolve_right (by simp [hg])) hg
      · obtain ⟨hfree, hclear⟩ := h.spared e he d hd
        exact ⟨hfree, fun w hw hl => hclear w ((hold w hw).resolve_right (by simp [hl])) hl⟩
  | evict =>
    cases hs
    refine ⟨h.held, h.guard, fun e he => ?_⟩
    rcases List.mem_append.mp he with he | he
    · exact h.spared e he
    · cases List.mem_singleton.mp he
      exact fun d hd => absurd hd List.not_mem_nil
  | evictStep i ev =>
    obtain ⟨e, s', e', hi, hmove, rfl⟩ := Sys.step_evict hs
    exact h.evict hi hmove hsnap
  | release d =>
    cases hs
    refine ⟨h.held, fun w hw hg => Finset.mem_erase.mpr ⟨fun heq => ?_, h.guard w hw hg⟩,
      fun e he d' hd => ?_⟩
    · have hnot := hrelease d rfl _ hw
      obtain ⟨e, src, ph⟩ := w
      cases hg
      simp [Putter.guarding, show e = d from heq] at hnot
    · obtain ⟨hfree, hclear⟩ := h.spared e he d' hd
      exact ⟨fun hin => hfree (Finset.mem_of_mem_erase hin), hclear⟩
  | get d => rw [Sys.step_get hs]; exact ⟨h.held, h.guard, h.spared⟩
  | scrub d => cases hact
  | scrubStep i ev => cases hact
  | quarantine d stat => cases hact
  | corrupt d bytes => cases hact

end Guarded

/-- An acknowledged digest is in flight and held. -/
def Acked (d : Digest) (x : Sys) : Prop :=
  d ∈ x.store.state.inFlight ∧ x.store.inner.has d = true

/-- It stays so under every step but its release: no pass has chosen what is in flight. -/
theorem Acked.step {H : HashFn} {x y : Sys} {a : Act} {d : Digest} (h : Acked d x) (hx : Guarded x)
    (hact : a.writesAndEvicts = true) (hne : a ≠ .release d) (hs : Sys.step H x a = some y) :
    Acked d y := by
  cases a with
  | put => cases hs; exact h
  | putKeyed d => cases hs; exact h
  | write i ev =>
    obtain ⟨p, s', p', hi, hp, rfl⟩ := Sys.step_write hs
    rcases Putter.step_cases hp with ⟨w, w', rfl, rfl, hmove⟩ | ⟨rfl, got, rfl, hspool⟩
    · exact ⟨hmove.inFlight_subset h.1, hmove.has_mono d h.2⟩
    · exact h
  | evict => cases hs; exact h
  | evictStep i ev =>
    obtain ⟨e, s', e', hi, hmove, rfl⟩ := Sys.step_evict hs
    cases hmove with
    | @reclaim budget grace victim sole queue used report hm hover hheld =>
      have hfree := (hx.spared _ (List.mem_of_getElem? hi) victim.digest List.mem_cons_self).1
      have hd : d ≠ victim.digest := fun heq => hfree (heq ▸ h.1)
      exact ⟨h.1, by simp [hd, h.2]⟩
    | _ => exact h
  | release d' =>
    cases hs
    refine ⟨Finset.mem_erase.mpr ⟨fun heq => hne (heq ▸ rfl), h.1⟩, h.2⟩
  | get d' => rw [Sys.step_get hs]; exact h
  | scrub d => cases hact
  | scrubStep i ev => cases hact
  | quarantine d stat => cases hact
  | corrupt d bytes => cases hact

/-- The schedules under which an acknowledged write survives. In every run of writes, eviction
passes and releases on an `lru` store in which no write of a listed blob stands between its publish
and its `after_write` at a pass's guard snapshot, none publishes a blob that a pass has chosen and
not come to, and no guard is released under a write about to return: from the moment a `put` or
`put_keyed` of `d` returns `Ok` until `d` is released, `d` is held. -/
theorem acknowledged_write_held {H : HashFn} {inner : LocalCas} {budget grace now : Nat}
    {blobs : List LocalBlob} {quarantine : List QuarantinedBlob} {as bs : List Act}
    {x y z : Sys} {i : Nat} {d : Digest} {src : Source}
    (hbefore : Run (Sys.step H) (QuietPasses H)
      (.idle (.new inner (.lru budget grace) now blobs quarantine)) as x)
    (hput : x.puts[i]? = some (.keyed ⟨d, src, .guarded⟩))
    (hret : Sys.step H x (.write i .ret) = some y)
    (hafter : Run (Sys.step H) (QuietPasses H) y bs z) (hkept : .release d ∉ bs) :
    z.store.inner.has d = true := by
  have hx : Guarded x := hbefore.keeps (fun hK hI hs => hI.step hK hs) (.idle _)
  have hmem := List.mem_of_getElem? hput
  have hacked : Acked d x := ⟨hx.guard _ hmem rfl, hx.held _ hmem rfl⟩
  have hpermitted : QuietPasses H x (.write i .ret) := by
    refine ⟨rfl, ?_, ?_, ?_⟩ <;> intro d hd <;> cases hd
  have hy : Acked d y := hacked.step hx rfl (by simp) hret
  have hguarded : Guarded y := hx.step hpermitted hret
  clear hbefore hput hret hx hmem hacked hpermitted
  induction hafter with
  | nil => exact hy.2
  | cons hK hs _ ih =>
    rw [List.mem_cons, not_or] at hkept
    exact ih hkept.2 (hy.step hguarded hK.1 (Ne.symm hkept.1) hs) (hguarded.step hK hs)

/-- The schedule that loses an acknowledged write: two bytes are published, a pass over the budget of
one byte takes its inventory and then its guard snapshot, the write guards its blob and returns, and
the pass reclaims it. -/
def losesWrite : List Act :=
  [.putKeyed (.compute .short [1, 2]), .write 0 (.decide false), .write 0 (.read [1, 2]),
    .write 0 (.read []), .write 0 .publish, .write 0 .release,
    .evict, .evictStep 0 (.roots ∅), .evictStep 0 (.list [⟨.compute .short [1, 2], 2⟩]),
    .evictStep 0 (.snapshot 5), .evictStep 0 (.order []),
    .write 0 (.afterWrite 5), .write 0 .ret, .evictStep 0 .reclaim]

/-- No step of `losesWrite` releases anything, its write returned `Ok`, and the blob is gone. -/
theorem acknowledged_write_lost :
    (∀ a ∈ losesWrite, a.releasing = none) ∧
    ∃ x, run (Sys.step .short) (fun _ a => a.writesAndEvicts = true)
        (.idle (.new ⟨.disk, ∅, ∅, false⟩ (.lru 1 60) 0 [] [])) losesWrite = some x ∧
      x.puts.map Putter.acknowledged = [some (.compute .short [1, 2])] ∧
      x.store.inner.has (.compute .short [1, 2]) = false :=
  ⟨by decide +kernel, run_exists (by decide +kernel)⟩

/-- The rule at work: a pass takes its inventory before the write has guarded its blob and its guard
snapshot after the return; it finds the new blob guarded and takes the older one. -/
theorem acknowledged_write_held_older_evicted :
    ∃ x y z, x.puts[0]? = some (.keyed ⟨.compute .short [1, 2], .stream, .guarded⟩) ∧
      Sys.step .short x (.write 0 .ret) = some y ∧
      run (Sys.step .short) (QuietPasses .short) y
        [.evictStep 0 (.snapshot 90), .evictStep 0 (.order []), .evictStep 0 .reclaim] = some z ∧
      z.store.inner.has (.compute .short [7]) = false ∧
      z.store.inner.has (.compute .short [1, 2]) = true := by
  have hbefore : ∃ x, run (Sys.step .short) (QuietPasses .short)
        (.idle (.new ⟨.disk, Finmap.singleton (.compute .short [7]) [7], ∅, false⟩ (.lru 2 60) 0
          [⟨.compute .short [7], 1⟩] []))
        [.putKeyed (.compute .short [1, 2]), .write 0 (.decide false), .write 0 (.read [1, 2]),
          .write 0 (.read []), .write 0 .publish, .evict, .evictStep 0 (.roots ∅),
          .evictStep 0 (.list [⟨.compute .short [7], 1⟩, ⟨.compute .short [1, 2], 2⟩]),
          .write 0 .release, .write 0 (.afterWrite 90)] = some x ∧
      x.puts[0]? = some (.keyed ⟨.compute .short [1, 2], .stream, .guarded⟩) ∧
      ((Sys.step .short x (.write 0 .ret)).any fun y =>
        (run (Sys.step .short) (QuietPasses .short) y
          [.evictStep 0 (.snapshot 90), .evictStep 0 (.order []), .evictStep 0 .reclaim]).any
          fun z => z.store.inner.has (.compute .short [7]) = false) = true :=
    run_exists (by decide +kernel)
  obtain ⟨x, hx, hput, hrest⟩ := hbefore
  obtain ⟨y, hy, hrest⟩ := (Option.any_eq_true _ _).mp hrest
  obtain ⟨z, hz, hgone⟩ := (Option.any_eq_true _ _).mp hrest
  exact ⟨x, y, z, hput, hy, hz, of_decide_eq_true hgone,
    acknowledged_write_held (run_sound hx) hput hy (run_sound hz) (by simp)⟩

end NessieStore
