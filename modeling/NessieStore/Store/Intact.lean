import NessieStore.Store.System

/-!
# A store without corruption

When no live file is corrupt, none becomes so by what the store does: a write publishes only bytes
that verify. Then no scrub ever reaches a verdict to act on, and the one thing that takes a blob away
is an eviction pass (`Intact.has_step`), which `write_only` mode does not have
(`Intact.has_writeOnly`).
-/

set_option autoImplicit false

namespace NessieStore

open Lib

/-- The scrub has condemned nothing. -/
def Scrubber.harmless : Scrubber → Bool
  | .start _ | .done _ => true
  | _ => false

/-- Everything but files going bad, and quarantines that no scrub asked for. -/
def Act.benign : Act → Bool
  | .corrupt _ _ | .quarantine _ _ => false
  | _ => true

/-- No live copy fails verification. -/
def LocalCas.Sound (H : HashFn) (c : LocalCas) : Prop := ∀ d, c.verify H d ≠ .ok false

/-- No live copy fails verification, and no scrub thinks that one does. -/
structure Intact (H : HashFn) (x : Sys) : Prop where
  sound : x.store.inner.Sound H
  scrubs : ∀ c ∈ x.scrubs, c.harmless = true

variable {H : HashFn} {x y : Sys}

theorem LocalCas.verify_eq_ok_false {c : LocalCas} {d : Digest} :
    c.verify H d = .ok false ↔
      c.kind = .disk ∧ ∃ b, c.blobs.lookup d = some b ∧ d.verify H b = false := by
  unfold verify
  cases c.blobs.lookup d with
  | none => simp
  | some b => cases c.kind <;> simp

theorem LocalCas.Sound.land {c : LocalCas} (h : c.Sound H) {d : Digest} {b : Bytes}
    (hv : d.verify H b = true) : (c.land d b).Sound H := by
  intro d' hbad
  obtain ⟨hk, b', hb', hv'⟩ := verify_eq_ok_false.mp hbad
  rw [land_kind] at hk
  rw [lookup_land_disk hk] at hb'
  split at hb'
  · next hd =>
    cases hb'
    rw [hd, hv] at hv'
    cases hv'
  · exact h d' (verify_eq_ok_false.mpr ⟨hk, b', hb', hv'⟩)

theorem LocalCas.Sound.reclaim {c : LocalCas} (h : c.Sound H) (d : Digest) :
    (c.reclaim d).2.Sound H := by
  intro d' hbad
  obtain ⟨hk, b', hb', hv'⟩ := verify_eq_ok_false.mp hbad
  simp only [LocalCas.reclaim, Map.lookup_erase_eq] at hb'
  split at hb'
  · cases hb'
  · exact h d' (verify_eq_ok_false.mpr ⟨hk, b', hb', hv'⟩)

/-- A keyed write keeps the live copies sound. -/
theorem Writer.Moves.sound {s s' : CasStore} {w w' : Writer} {ev : WriteEvent}
    (hmove : Writer.Moves H s w ev s' w') (h : s.inner.Sound H) : s'.inner.Sound H := by
  rcases hmove.inner_cases with heq | ⟨-, -, hv, rfl, -⟩
  · rw [heq]
    exact h
  · exact h.land hv

namespace Intact

theorem idle {s : CasStore} (h : s.inner.Sound H) : Intact H (.idle s) :=
  ⟨h, fun _ hc => absurd hc List.not_mem_nil⟩

/-- A scrub of a sound store ends without having touched it. -/
theorem scrub_eq (h : Intact H x) {c c' : Scrubber} {s' : CasStore} {ev : ScrubEvent}
    (hc : c ∈ x.scrubs) (hmove : Scrubber.Moves H x.store c ev s' c') :
    s' = x.store ∧ c'.harmless = true := by
  have hharm := h.scrubs c hc
  cases hmove with
  | condemn hv => exact absurd hv (h.sound _)
  | finish => exact ⟨rfl, rfl⟩
  | _ => cases hharm

theorem step (h : Intact H x) {a : Act} (ha : a.benign = true) (hs : Sys.step H x a = some y) :
    Intact H y := by
  cases a with
  | put => cases hs; exact ⟨h.sound, h.scrubs⟩
  | putKeyed d => cases hs; exact ⟨h.sound, h.scrubs⟩
  | write i ev =>
    obtain ⟨p, s', p', hi, hp, rfl⟩ := Sys.step_write hs
    refine ⟨?_, h.scrubs⟩
    rcases Putter.step_cases hp with ⟨w, w', rfl, rfl, hmove⟩ | ⟨rfl, -⟩
    · exact hmove.sound h.sound
    · exact h.sound
  | evict => cases hs; exact ⟨h.sound, h.scrubs⟩
  | evictStep i ev =>
    obtain ⟨e, s', e', hi, hmove, rfl⟩ := Sys.step_evict hs
    refine ⟨?_, h.scrubs⟩
    cases hmove with
    | reclaim => exact h.sound.reclaim _
    | _ => exact h.sound
  | scrub d =>
    cases hs
    refine ⟨h.sound, fun c hc => ?_⟩
    rcases List.mem_append.mp hc with hc | hc
    · exact h.scrubs c hc
    · cases List.mem_singleton.mp hc; rfl
  | scrubStep i ev =>
    obtain ⟨c, s', c', hi, hmove, rfl⟩ := Sys.step_scrub hs
    obtain ⟨rfl, hc'⟩ := h.scrub_eq (List.mem_of_getElem? hi) hmove
    exact ⟨h.sound, forall_mem_set h.scrubs hc'⟩
  | quarantine d stat => cases ha
  | release d => cases hs; exact ⟨h.sound, h.scrubs⟩
  | get d => rw [Sys.step_get hs]; exact ⟨h.sound, h.scrubs⟩
  | corrupt d bytes => cases ha

/-- A blob stays, unless an eviction pass reclaims it. -/
theorem has_step (h : Intact H x) {a : Act} (ha : a.benign = true) (hs : Sys.step H x a = some y)
    {d : Digest} (hd : x.store.inner.has d = true) :
    y.store.inner.has d = true ∨ x.reclaiming a = some d := by
  cases a with
  | put => cases hs; exact .inl hd
  | putKeyed d => cases hs; exact .inl hd
  | write i ev =>
    obtain ⟨p, s', p', hi, hp, rfl⟩ := Sys.step_write hs
    rcases Putter.step_cases hp with ⟨w, w', rfl, rfl, hmove⟩ | ⟨rfl, -⟩
    · exact .inl (hmove.has_mono d hd)
    · exact .inl hd
  | evict => cases hs; exact .inl hd
  | evictStep i ev =>
    obtain ⟨e, s', e', hi, hmove, rfl⟩ := Sys.step_evict hs
    cases hmove with
    | @reclaim budget grace victim sole queue used report hm hover hheld =>
      by_cases hv : d = victim.digest
      · right
        simp [Sys.reclaiming, hi, hm, hover, hv]
      · left
        simp [hv, hd]
    | _ => exact .inl hd
  | scrub d => cases hs; exact .inl hd
  | scrubStep i ev =>
    obtain ⟨c, s', c', hi, hmove, rfl⟩ := Sys.step_scrub hs
    obtain ⟨rfl, -⟩ := h.scrub_eq (List.mem_of_getElem? hi) hmove
    exact .inl hd
  | quarantine d stat => cases ha
  | release d => cases hs; exact .inl hd
  | get d => rw [Sys.step_get hs]; exact .inl hd
  | corrupt d bytes => cases ha

/-- In `write_only` mode a blob stays. -/
theorem has_writeOnly (h : Intact H x) {a : Act} (ha : a.benign = true)
    (hs : Sys.step H x a = some y) {capacity : Nat} (hm : x.store.mode = .writeOnly capacity)
    {d : Digest} (hd : x.store.inner.has d = true) : y.store.inner.has d = true := by
  rcases h.has_step ha hs hd with hold | hgone
  · exact hold
  · unfold Sys.reclaiming at hgone
    split at hgone
    · next i =>
      rw [hm] at hgone
      split at hgone
      · next hlru => cases hlru
      · cases hgone
    · cases hgone

end Intact

/-- No step changes the mode. -/
theorem Sys.step_mode {a : Act} (hs : Sys.step H x a = some y) : y.store.mode = x.store.mode := by
  cases a with
  | write i ev =>
    obtain ⟨p, s', p', hi, hp, rfl⟩ := Sys.step_write hs
    rcases Putter.step_cases hp with ⟨w, w', rfl, rfl, hmove⟩ | ⟨rfl, -⟩
    · exact hmove.mode_eq
    · rfl
  | evictStep i ev =>
    obtain ⟨e, s', e', hi, hmove, rfl⟩ := Sys.step_evict hs
    cases hmove <;> rfl
  | scrubStep i ev =>
    obtain ⟨c, s', c', hi, hmove, rfl⟩ := Sys.step_scrub hs
    cases hmove with
    | quarantine => exact (CasStore.quarantine_inner _ _ _).2.1
    | _ => rfl
  | quarantine d stat => cases hs; exact (CasStore.quarantine_inner _ _ _).2.1
  | get d => rw [Sys.step_get hs]
  | corrupt d bytes =>
    obtain ⟨-, -, -, rfl⟩ := Sys.step_corrupt hs
    rfl
  | _ => cases hs; rfl

end NessieStore
