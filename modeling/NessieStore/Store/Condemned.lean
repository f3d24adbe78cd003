import NessieStore.Store.System

/-!
# Scrubbing beside re-puts

A scrub decides that a copy is corrupt and takes it out later. In `lru` mode the last verdict and the
unlink share the backend's commit lock, which every publish waits for, so the copy removed is the
copy condemned. In `write_only` mode `quarantine` acts on a verdict reached without any lock, and
only a re-put that is still running holds it back. A write that publishes a healthy copy and is done
before the quarantine loses that copy: `healthy_copy_quarantined`.

`scrub_removes_only_corrupt` proves the rest: it is enough that, while a `write_only` scrub stands
between its verdict on a digest and its quarantine, no gated write publishes the digest and no
landed re-put of it finishes. In `lru` mode nothing is asked. Then every copy taken out fails
verification at that moment, and a published digest stays readable as long as its file is not
corrupted again.
-/

set_option autoImplicit false

namespace NessieStore

open Lib

def StorageMode.isWriteOnly : StorageMode → Bool
  | .lru .. => false
  | .writeOnly _ => true

/-- Writes, scrubs, reads, and files going bad. -/
def Act.writesAndScrubs : Act → Bool
  | .put | .putKeyed _ | .write _ _ | .scrub _ | .scrubStep _ _ | .release _ | .get _
  | .corrupt _ _ => true
  | _ => false

/-- The digest on which a gated write publishes, or on which a landed re-put finishes. -/
def Sys.healing (x : Sys) : Act → Option Digest
  | .write i .publish =>
    match x.puts[i]? with
    | some (.keyed ⟨d, _, .gated _ _ _⟩) => some d
    | _ => none
  | .write i .release =>
    match x.puts[i]? with
    | some (.keyed ⟨d, _, .ungatedDone true (.ok _)⟩) => some d
    | _ => none
  | _ => none

/-- No heal completes under a standing `write_only` verdict on the same digest. -/
def VerdictsFresh (x : Sys) (a : Act) : Prop :=
  a.writesAndScrubs = true ∧
    (x.store.mode.isWriteOnly = true → ∀ d ∈ x.healing a, .condemned d ∉ x.scrubs)

instance (x : Sys) (a : Act) : Decidable (VerdictsFresh x a) :=
  inferInstanceAs (Decidable (_ ∧ (_ → _)))

section Invariant

variable (H : HashFn)

/-- The live copy of `d` verifies. -/
def Healthy (c : LocalCas) (d : Digest) : Prop :=
  ∃ b, c.blobs.lookup d = some b ∧ d.verify H b = true

/-- The live copy of `d` is there and does not verify. -/
def Corrupt (c : LocalCas) (d : Digest) : Prop :=
  ∃ b, c.blobs.lookup d = some b ∧ d.verify H b = false

/-- A re-put of `d` has landed and is still registered. -/
def Healing (x : Sys) (d : Digest) : Prop :=
  ∃ p ∈ x.puts, ∃ src, p = .keyed ⟨d, src, .ungatedDone true (.ok ())⟩

/-- One for a scrub that holds the commit lock. -/
def Scrubber.holds : Scrubber → Nat
  | .locked _ => 1
  | _ => 0

structure ScrubInv (x : Sys) : Prop where
  disk : x.store.inner.kind = .disk
  registered : x.Registered
  /-- In `write_only` mode every ungated write is registered. -/
  ungated : x.store.mode.isWriteOnly = true → ∀ w, .keyed w ∈ x.puts →
    ∀ reg got eof, w.phase = .ungated reg got eof → reg = true
  /-- At most one scrub holds the commit lock. -/
  lock : weigh Scrubber.holds x.scrubs ≤ if x.store.inner.commitLock then 1 else 0
  lru : ∀ d, .rechecked d ∈ x.scrubs ∨ .locked d ∈ x.scrubs → x.store.mode.isWriteOnly = false
  locked : ∀ d, .locked d ∈ x.scrubs → Corrupt H x.store.inner d
  /-- A standing verdict is still true, or a re-put that made it false is still visible. -/
  condemned : x.store.mode.isWriteOnly = true → ∀ d, .condemned d ∈ x.scrubs →
    ¬ Healthy H x.store.inner d ∨ Healing x d

end Invariant

variable {H : HashFn} {x y : Sys}

theorem verify_eq_false {c : LocalCas} {d : Digest} (h : c.verify H d = .ok false) :
    Corrupt H c d := by
  simp only [LocalCas.verify] at h
  split at h
  · cases h
  · next b hb =>
    split at h
    · cases h
    · injection h with h
      exact ⟨b, hb, h⟩

theorem Corrupt.not_healthy {c : LocalCas} {d : Digest} (h : Corrupt H c d) : ¬ Healthy H c d := by
  rintro ⟨b, hb, hv⟩
  obtain ⟨b', hb', hv'⟩ := h
  rw [hb] at hb'
  cases hb'
  rw [hv] at hv'
  cases hv'

/-- A healthy copy is what a read serves. -/
theorem Healthy.get {c : LocalCas} {d : Digest} (h : Healthy H c d) : ∃ b, c.get H d = .ok b := by
  obtain ⟨b, hb, hv⟩ := h
  refine ⟨b, ?_⟩
  simp only [LocalCas.get, hb, hv, if_true]
  split <;> rfl

theorem healthy_land {s : CasStore} {d d' : Digest} {got : Bytes} (hdisk : s.inner.kind = .disk)
    (hv : d.verify H got = true) :
    Healthy H (s.land d got).inner d' ↔ d' = d ∨ Healthy H s.inner d' := by
  simp only [Healthy, CasStore.land, LocalCas.lookup_land_disk hdisk]
  by_cases hd : d' = d
  · subst hd
    simp [hv]
  · simp [hd]

theorem healthy_reclaim {c c' : LocalCas} {d d' : Digest} (h : c'.blobs = c.blobs.erase d) :
    Healthy H c' d' ↔ d' ≠ d ∧ Healthy H c d' := by
  simp only [Healthy, h, Map.lookup_erase_eq]
  by_cases hd : d' = d <;> simp [hd]

theorem healthy_corrupt {c c' : LocalCas} {d d' : Digest} {bytes : Bytes}
    (h : c'.blobs = c.blobs.insert d bytes) (hv : d.verify H bytes = false) :
    Healthy H c' d' ↔ d' ≠ d ∧ Healthy H c d' := by
  simp only [Healthy, h, Map.lookup_insert_eq]
  by_cases hd : d' = d
  · subst hd
    simp [hv]
  · simp [hd]

/-- A landed re-put keeps `quarantine` off its digest. -/
theorem Healing.defers {d : Digest} (hreg : x.Registered) (h : Healing x d) :
    ∀ stat, x.store.quarantine d stat = (.ok .deferred, x.store) := by
  intro stat
  obtain ⟨p, hp, src, rfl⟩ := h
  have hsome := hreg.defers hp rfl
  rw [CasStore.quarantine, if_pos (Option.isSome_iff_ne_none.mpr hsome)]

namespace ScrubInv

/-- With the commit lock free, no scrub holds it. -/
theorem not_locked (h : ScrubInv H x) (hfree : x.store.inner.commitLock = false) (d : Digest) :
    .locked d ∉ x.scrubs := by
  intro hmem
  have hlock := h.lock
  have hle := le_weigh (f := Scrubber.holds) hmem
  rw [hfree] at hlock
  simp only [Scrubber.holds, Bool.false_eq_true, if_false] at hle hlock
  omega

/-- The blobs and the scrubs stay as they are, and no landed re-put drops out of sight. -/
theorem quiet (h : ScrubInv H x) (hinner : y.store.inner = x.store.inner)
    (hmode : y.store.mode = x.store.mode) (hreg : y.Registered) (hscrubs : y.scrubs = x.scrubs)
    (hungated : y.store.mode.isWriteOnly = true → ∀ w, .keyed w ∈ y.puts →
      ∀ reg got eof, w.phase = .ungated reg got eof → reg = true)
    (hhealing : x.store.mode.isWriteOnly = true → ∀ d, .condemned d ∈ x.scrubs → Healing x d →
      Healing y d) : ScrubInv H y where
  disk := by rw [hinner]; exact h.disk
  registered := hreg
  ungated := hungated
  lock := by rw [hscrubs, hinner]; exact h.lock
  lru := by rw [hscrubs, hmode]; exact h.lru
  locked := by rw [hscrubs, hinner]; exact h.locked
  condemned := by
    intro hwo d hd
    rw [hmode] at hwo
    rw [hscrubs] at hd
    rw [hinner]
    exact (h.condemned hwo d hd).imp_right (hhealing hwo d hd)

/-- A keyed write moves. -/
theorem move (h : ScrubInv H x) {i : Nat} {w w' : Writer} {ev : WriteEvent} {s' : CasStore}
    (hi : x.puts[i]? = some (.keyed w)) (hmove : Writer.Moves H x.store w ev s' w')
    (hreg : Sys.Registered { x with store := s', puts := x.puts.set i (.keyed w') })
    (hfresh : x.store.mode.isWriteOnly = true → ∀ d ∈ x.healing (.write i ev),
      .condemned d ∉ x.scrubs) :
    ScrubInv H { x with store := s', puts := x.puts.set i (.keyed w') } := by
  have hmem := List.mem_of_getElem? hi
  have hmode := hmove.mode_eq
  -- in `write_only` mode a write takes the ungated path registered
  have hungated : s'.mode.isWriteOnly = true → ∀ v, .keyed v ∈ x.puts.set i (.keyed w') →
      ∀ reg got eof, v.phase = .ungated reg got eof → reg = true := by
    intro hwo v hv reg got eof hph
    rw [hmode] at hwo
    rcases List.mem_or_eq_of_mem_set hv with hold | hnew
    · exact h.ungated hwo v hold reg got eof hph
    · cases hnew
      cases hmove with
      | direct hm => rw [hm] at hwo; cases hwo
      | fast hm held => cases hph; rfl
      | read hr => cases hph; exact h.ungated hwo _ hmem _ _ _ rfl
      | _ => cases hph
  -- a re-put that has landed keeps healing until it drops its registration
  have hhealing : x.store.mode.isWriteOnly = true → ∀ d, .condemned d ∈ x.scrubs → Healing x d →
      Healing { x with store := s', puts := x.puts.set i (.keyed w') } d := by
    intro hwo d hd hheal
    refine exists_mem_set hi ?_ hheal
    rintro ⟨src, hp⟩
    cases hp
    cases hmove
    refine absurd hd (hfresh hwo d ?_)
    simp [Sys.healing, hi]
  rcases hmove.inner_cases with hinner | ⟨rfl, hlock, hv, hland, hphase⟩
  · exact h.quiet hinner hmode hreg rfl hungated hhealing
  · exact {
      disk := by rw [hland]; simpa [CasStore.land] using h.disk
      registered := hreg
      ungated := hungated
      lock := by rw [hland]; simpa [CasStore.land] using h.lock
      lru := by rw [hmode]; exact h.lru
      locked := fun d hd => absurd hd (h.not_locked hlock d)
      condemned := fun hwo d hd => by
        rw [hmode] at hwo
        by_cases hd' : d = w.expected
        · right
          rcases hphase with ⟨reg, got, hph, hph'⟩ | ⟨got, mine, hph, -⟩
          · have hregd : reg = true := h.ungated hwo w hmem reg got true hph
            subst hregd
            refine ⟨.keyed w', mem_set_of_getElem? hi, w'.source, ?_⟩
            have hexp := hmove.expected_eq
            obtain ⟨e, src, ph⟩ := w'
            simp only at hexp hph'
            rw [hexp, hph', hd']
          · refine absurd hd (hfresh hwo d ?_)
            obtain ⟨e, src, ph⟩ := w
            simp only at hph hd'
            simp [Sys.healing, hi, hph, hd']
        · rcases h.condemned hwo d hd with hnot | hheal
          · left
            rw [hland, healthy_land h.disk hv]
            exact fun hor => hor.elim hd' hnot
          · exact .inr (hhealing hwo d hd hheal) }

/-- A scrub moves on and keeps no new claim on the store; the blobs lose at most a digest. -/
theorem settle (h : ScrubInv H x) {i : Nat} {c : Scrubber} {out : ScrubOutcome} {s' : CasStore}
    (hi : x.scrubs[i]? = some c)
    (hreg : Sys.Registered { x with store := s', scrubs := x.scrubs.set i (.done out) })
    (hdisk : s'.inner.kind = x.store.inner.kind) (hmode : s'.mode = x.store.mode)
    (hlock : weigh Scrubber.holds x.scrubs ≤
      (if s'.inner.commitLock then 1 else 0) + c.holds)
    (hlocked : ∀ d, .locked d ∈ x.scrubs.set i (.done out) → Corrupt H s'.inner d)
    (hhealthy : s'.mode.isWriteOnly = true → ∀ d, Healthy H s'.inner d → Healthy H x.store.inner d) :
    ScrubInv H { x with store := s', scrubs := x.scrubs.set i (.done out) } := by
  have hold : ∀ c', c' ∈ x.scrubs.set i (.done out) → c' ≠ .done out → c' ∈ x.scrubs := by
    intro c' hc' hne
    exact (List.mem_or_eq_of_mem_set hc').resolve_right hne
  refine {
    disk := hdisk.trans h.disk
    registered := hreg
    ungated := fun hwo => h.ungated (hmode ▸ hwo)
    lock := ?_
    lru := fun d hd => ?_
    locked := hlocked
    condemned := fun hwo d hd => ?_ }
  · have hset := weigh_set (f := Scrubber.holds) hi (.done out)
    simp only [Scrubber.holds] at hset
    show weigh Scrubber.holds (x.scrubs.set i (.done out)) ≤ if s'.inner.commitLock then 1 else 0
    simp only [Scrubber.holds] at hlock
    omega
  · show s'.mode.isWriteOnly = false
    rw [hmode]
    exact h.lru d (hd.imp (fun hr => hold _ hr (by simp)) fun hl => hold _ hl (by simp))
  · have hd' := hold _ hd (by simp)
    exact (h.condemned (hmode ▸ hwo) d hd').imp_left fun hnot hh => hnot (hhealthy hwo d hh)

/-- A scrub goes one stage further; what it now knows is true of the store. -/
theorem advance (h : ScrubInv H x) {i : Nat} {c c' : Scrubber} (hi : x.scrubs[i]? = some c)
    (hc : c.holds = 0) (hc' : c'.holds = 0) (hrechecked : ∀ d, c' = .rechecked d →
      x.store.mode.isWriteOnly = false)
    (hcondemned : ∀ d, c' = .condemned d → ¬ Healthy H x.store.inner d) :
    ScrubInv H { x with scrubs := x.scrubs.set i c' } := by
  have hnot : ∀ d, c' ≠ .locked d := by
    rintro d rfl
    cases hc'
  refine {
    disk := h.disk
    registered := h.registered
    ungated := h.ungated
    lock := ?_
    lru := fun d hd => ?_
    locked := fun d hd => ?_
    condemned := fun hwo d hd => ?_ }
  · have hset := weigh_set (f := Scrubber.holds) hi c'
    have hlock := h.lock
    show weigh Scrubber.holds (x.scrubs.set i c') ≤ if x.store.inner.commitLock then 1 else 0
    omega
  · rcases hd with hr | hl
    · rcases List.mem_or_eq_of_mem_set hr with hold | hnew
      · exact h.lru d (.inl hold)
      · exact hrechecked d hnew.symm
    · exact h.lru d (.inr ((List.mem_or_eq_of_mem_set hl).resolve_right fun he => hnot d he.symm))
  · exact h.locked d ((List.mem_or_eq_of_mem_set hd).resolve_right fun he => hnot d he.symm)
  · rcases List.mem_or_eq_of_mem_set hd with hold | hnew
    · exact h.condemned hwo d hold
    · exact .inl (hcondemned d hnew.symm)

/-- A scrub takes the free commit lock on a copy that it finds corrupt. -/
theorem takeLock (h : ScrubInv H x) {i : Nat} {d : Digest} (hi : x.scrubs[i]? = some (.rechecked d))
    (hfree : x.store.inner.commitLock = false) (hbad : Corrupt H x.store.inner d) :
    ScrubInv H { x with
      store := { x.store with inner := { x.store.inner with commitLock := true } }
      scrubs := x.scrubs.set i (.locked d) } := by
  have hlru := h.lru d (.inl (List.mem_of_getElem? hi))
  refine {
    disk := h.disk
    registered := h.registered
    ungated := h.ungated
    lock := ?_
    lru := fun _ _ => hlru
    locked := fun d' hd => ?_
    condemned := fun hwo => by cases hlru.symm.trans hwo }
  · have hset := weigh_set (f := Scrubber.holds) hi (.locked d)
    have hlock := h.lock
    rw [hfree] at hlock
    simp only [Scrubber.holds, Bool.false_eq_true, if_false] at hset hlock
    show weigh Scrubber.holds (x.scrubs.set i (.locked d)) ≤ 1
    omega
  · rcases List.mem_or_eq_of_mem_set hd with hold | hnew
    · exact absurd hold (h.not_locked hfree d')
    · cases hnew
      exact hbad

/-- The scrub that holds the commit lock is the only one, and may let go of it. -/
theorem dropLock (h : ScrubInv H x) {i : Nat} {d : Digest} {out : ScrubOutcome} {s' : CasStore}
    (hi : x.scrubs[i]? = some (.locked d))
    (hreg : Sys.Registered { x with store := s', scrubs := x.scrubs.set i (.done out) })
    (hdisk : s'.inner.kind = x.store.inner.kind) (hmode : s'.mode = x.store.mode) :
    ScrubInv H { x with store := s', scrubs := x.scrubs.set i (.done out) } := by
  have hset := weigh_set (f := Scrubber.holds) hi (.done out)
  have hlock := h.lock
  simp only [Scrubber.holds] at hset
  refine h.settle hi hreg hdisk hmode ?_ (fun d' hd' => ?_) fun hwo => ?_
  · simp only [Scrubber.holds]
    split at hlock <;> omega
  · have hle := le_weigh (f := Scrubber.holds) hd'
    simp only [Scrubber.holds] at hle
    split at hlock <;> omega
  · rw [hmode, h.lru d (.inr (List.mem_of_getElem? hi))] at hwo
    cases hwo

/-- Every transition of a scrub keeps the invariant. -/
theorem scrub (h : ScrubInv H x) {i : Nat} {c c' : Scrubber} {ev : ScrubEvent} {s' : CasStore}
    (hi : x.scrubs[i]? = some c) (hmove : Scrubber.Moves H x.store c ev s' c')
    (hreg : Sys.Registered { x with store := s', scrubs := x.scrubs.set i c' }) :
    ScrubInv H { x with store := s', scrubs := x.scrubs.set i c' } := by
  have hlockx := h.lock
  cases hmove with
  | condemn hv =>
    refine h.advance hi rfl rfl (by simp) ?_
    rintro d ⟨⟩
    exact (verify_eq_false hv).not_healthy
  | recheck hm hv =>
    refine h.advance hi rfl rfl (fun d _ => ?_) (by simp)
    rw [hm]
    rfl
  | lock hfree hv => exact h.takeLock hi hfree (verify_eq_false hv)
  | unlink => exact h.dropLock hi hreg rfl rfl
  | unlock => exact h.dropLock hi hreg rfl rfl
  | @quarantine d capacity stat out hm =>
    have hwo : x.store.mode.isWriteOnly = true := by rw [hm]; rfl
    have hnone : ∀ d', .locked d' ∉ x.scrubs := fun d' hd' => by
      rw [h.lru d' (.inr hd')] at hwo
      cases hwo
    obtain ⟨hinner, hmode, -⟩ := x.store.quarantine_inner d stat
    have hlocked : ∀ d', .locked d' ∈ x.scrubs.set i (.done out) →
        Corrupt H (x.store.quarantine d stat).2.inner d' := fun d' hd' =>
      absurd ((List.mem_or_eq_of_mem_set hd').resolve_right (by simp)) (hnone d')
    rcases hinner with hsame | ⟨bytes, hmoved⟩
    · exact h.settle hi hreg (by rw [hsame]) hmode (by rw [hsame]; exact hlockx)
        hlocked fun _ d' hd' => by rwa [hsame] at hd'
    · refine h.settle hi hreg (by rw [hmoved]; rfl) hmode
        (by rw [hmoved]; exact hlockx) hlocked fun _ d' hd' => ?_
      rw [hmoved] at hd'
      exact ((healthy_reclaim rfl).mp hd').2
  | finish hc =>
    refine h.settle hi hreg rfl rfl (by omega) (fun d hd => ?_) fun _ d hd => hd
    exact h.locked d ((List.mem_or_eq_of_mem_set hd).resolve_right (by simp))

/-- A file goes bad. -/
theorem corrupt (h : ScrubInv H x) {d : Digest} {bytes : Bytes} (hv : d.verify H bytes = false)
    (hreg : Sys.Registered { x with store := { x.store with
      inner := { x.store.inner with blobs := x.store.inner.blobs.insert d bytes } } }) :
    ScrubInv H { x with store := { x.store with
      inner := { x.store.inner with blobs := x.store.inner.blobs.insert d bytes } } } where
  disk := h.disk
  registered := hreg
  ungated := h.ungated
  lock := h.lock
  lru := h.lru
  locked := by
    intro d' hd'
    by_cases hd : d' = d
    · subst hd
      exact ⟨bytes, Finmap.lookup_insert _, hv⟩
    · obtain ⟨b, hb, hbad⟩ := h.locked d' hd'
      exact ⟨b, (Finmap.lookup_insert_of_ne _ hd).trans hb, hbad⟩
  condemned := by
    intro hwo d' hd'
    refine (h.condemned hwo d' hd').imp_left fun hnot hh => hnot ?_
    exact ((healthy_corrupt rfl hv).mp hh).2

/-- The step lemma. -/
theorem step (h : ScrubInv H x) {a : Act} (hK : VerdictsFresh x a) (hs : Sys.step H x a = some y) :
    ScrubInv H y := by
  have hreg := h.registered.step hs
  obtain ⟨hact, hfresh⟩ := hK
  cases a with
  | put =>
    cases hs
    refine h.quiet rfl rfl hreg rfl (fun hwo w hw => h.ungated hwo w (by simpa using hw)) ?_
    rintro - d - ⟨p, hp, hdone⟩
    exact ⟨p, List.mem_append_left _ hp, hdone⟩
  | putKeyed d =>
    cases hs
    refine h.quiet rfl rfl hreg rfl (fun hwo w hw reg got eof hph => ?_) ?_
    · rcases List.mem_append.mp hw with hw | hw
      · exact h.ungated hwo w hw reg got eof hph
      · cases List.mem_singleton.mp hw
        cases hph
    · rintro - d - ⟨p, hp, hdone⟩
      exact ⟨p, List.mem_append_left _ hp, hdone⟩
  | write i ev =>
    obtain ⟨p, s', p', hi, hp, rfl⟩ := Sys.step_write hs
    rcases Putter.step_cases hp with ⟨w, w', rfl, rfl, hmove⟩ | ⟨rfl, got, rfl, hspool⟩
    · exact h.move hi hmove hreg hfresh
    · refine h.quiet rfl rfl hreg rfl (fun hwo w hw reg got eof hph => ?_) ?_
      · rcases List.mem_or_eq_of_mem_set hw with hold | rfl
        · exact h.ungated hwo w hold reg got eof hph
        · -- an unkeyed write that comes to its end in `write_only` mode enters the keyed path
          rcases hspool with ⟨got', hc⟩ | ⟨e, hc⟩ | ⟨cap, hm, hc⟩ | ⟨budget, grace, hm, hc⟩
          · cases hc
          · cases hc
          · cases hc
            cases hph
          · rw [hm] at hwo
            cases hwo
      · intro _ d _ hheal
        refine exists_mem_set hi ?_ hheal
        rintro ⟨src, hp⟩
        cases hp
  | scrub d =>
    cases hs
    refine {
      disk := h.disk
      registered := hreg
      ungated := h.ungated
      lock := by simpa [Scrubber.holds] using h.lock
      lru := fun d' hd => h.lru d' (by simpa using hd)
      locked := fun d' hd => h.locked d' (by simpa using hd)
      condemned := fun hwo d' hd => h.condemned hwo d' (by simpa using hd) }
  | scrubStep i ev =>
    obtain ⟨c, s', c', hi, hmove, rfl⟩ := Sys.step_scrub hs
    exact h.scrub hi hmove hreg
  | release d => cases hs; exact h.quiet rfl rfl hreg rfl h.ungated fun _ _ _ hh => hh
  | get d =>
    have hy := Sys.step_get hs
    subst hy
    exact h.quiet rfl rfl hreg rfl h.ungated fun _ _ _ hh => hh
  | corrupt d bytes =>
    obtain ⟨-, -, hv, rfl⟩ := Sys.step_corrupt hs
    exact h.corrupt hv hreg
  | evict => cases hact
  | evictStep i ev => cases hact
  | quarantine d stat => cases hact

theorem idle {s : CasStore} (hdisk : s.inner.kind = .disk) (hfast : s.state.fastInflight = ∅) :
    ScrubInv H (.idle s) where
  disk := hdisk
  registered := Sys.registered_idle hfast
  ungated := fun _ _ hw => absurd hw List.not_mem_nil
  lock := Nat.zero_le _
  lru := fun _ hd => hd.elim (absurd · List.not_mem_nil) (absurd · List.not_mem_nil)
  locked := fun _ hd => absurd hd List.not_mem_nil
  condemned := fun _ _ hd => absurd hd List.not_mem_nil

/-- Whatever copy a scrub step takes out fails verification. -/
theorem removed_corrupt (h : ScrubInv H x) {i : Nat} {ev : ScrubEvent}
    (hs : Sys.step H x (.scrubStep i ev) = some y) {d : Digest} {b : Bytes}
    (hb : x.store.inner.blobs.lookup d = some b)
    (hgone : y.store.inner.blobs.lookup d ≠ some b) : d.verify H b = false := by
  obtain ⟨c, s', c', hi, hmove, rfl⟩ := Sys.step_scrub hs
  have hmem := List.mem_of_getElem? hi
  cases hmove with
  | @unlink d' =>
    have hd : d = d' := by
      by_contra hne
      exact hgone ((Finmap.lookup_erase_ne hne).trans hb)
    subst hd
    obtain ⟨b', hb', hbad⟩ := h.locked d hmem
    rw [hb] at hb'
    cases hb'
    exact hbad
  | @quarantine d' capacity stat out hm =>
    have hwo : x.store.mode.isWriteOnly = true := by rw [hm]; rfl
    rcases h.condemned hwo d' hmem with hnot | hheal
    · rcases (x.store.quarantine_inner d' stat).1 with hsame | ⟨bytes, hmoved⟩
      · rw [hsame] at hgone
        exact absurd hb hgone
      · rw [hmoved] at hgone
        have hd : d = d' := by
          by_contra hne
          exact hgone ((Finmap.lookup_erase_ne hne).trans hb)
        subst hd
        exact Bool.eq_false_iff.mpr fun hv => hnot ⟨b, hb, hv⟩
    · rw [hheal.defers h.registered] at hgone
      exact absurd hb hgone
  | condemn hv => exact absurd hb hgone
  | recheck hm hv => exact absurd hb hgone
  | lock hfree hv => exact absurd hb hgone
  | unlock => exact absurd hb hgone
  | finish hc => exact absurd hb hgone

/-- A healthy copy stays until its file goes bad. -/
theorem healthy_step (h : ScrubInv H x) {a : Act} (hK : VerdictsFresh x a)
    (hs : Sys.step H x a = some y) {d : Digest} (hd : Healthy H x.store.inner d)
    (hne : ∀ bytes, a ≠ .corrupt d bytes) : Healthy H y.store.inner d := by
  obtain ⟨hact, -⟩ := hK
  cases a with
  | put => cases hs; exact hd
  | putKeyed d' => cases hs; exact hd
  | write i ev =>
    obtain ⟨p, s', p', hi, hp, rfl⟩ := Sys.step_write hs
    rcases Putter.step_cases hp with ⟨w, w', rfl, rfl, hmove⟩ | ⟨rfl, got, rfl, hspool⟩
    · rcases hmove.inner_cases with hinner | ⟨-, -, hv, hland, -⟩
      · show Healthy H s'.inner d
        rw [hinner]
        exact hd
      · show Healthy H s'.inner d
        rw [hland, healthy_land h.disk hv]
        exact .inr hd
    · exact hd
  | scrub d' => cases hs; exact hd
  | scrubStep i ev =>
    obtain ⟨b, hb, hv⟩ := hd
    by_contra hnot
    have hgone : y.store.inner.blobs.lookup d ≠ some b := fun hy => hnot ⟨b, hy, hv⟩
    rw [h.removed_corrupt hs hb hgone] at hv
    cases hv
  | release d' => cases hs; exact hd
  | get d' =>
    have hy := Sys.step_get hs
    subst hy
    exact hd
  | corrupt d' bytes =>
    obtain ⟨-, -, hv, rfl⟩ := Sys.step_corrupt hs
    exact (healthy_corrupt rfl hv).mpr ⟨fun he => hne bytes (he ▸ rfl), hd⟩
  | evict => cases hact
  | evictStep i ev => cases hact
  | quarantine d stat => cases hact

end ScrubInv

/-- **A scrub removes only corrupt copies**, in both modes, when no heal of a digest completes under
a standing `write_only` verdict on it. Then, in every interleaving of writes, scrubs and
corruptions: a copy that a scrub step takes out fails verification at that moment; and from the
publish of a `put` or `put_keyed` of `d` on, as long as the file is not corrupted, `d` is readable. -/
theorem scrub_removes_only_corrupt {H : HashFn} {inner : LocalCas} (hdisk : inner.kind = .disk)
    {mode : StorageMode} {now : Nat} {blobs : List LocalBlob} {quarantine : List QuarantinedBlob}
    {as : List Act} {x y : Sys}
    (hrun : Run (Sys.step H) VerdictsFresh (.idle (.new inner mode now blobs quarantine)) as x) :
    (∀ i ev, Sys.step H x (.scrubStep i ev) = some y → ∀ d b,
      x.store.inner.blobs.lookup d = some b → y.store.inner.blobs.lookup d ≠ some b →
      d.verify H b = false) ∧
    ∀ i d b bs z, x.publishing (.write i .publish) = some (d, b) → d.verify H b = true →
      VerdictsFresh x (.write i .publish) → Sys.step H x (.write i .publish) = some y →
      Run (Sys.step H) VerdictsFresh y bs z → (∀ bytes, .corrupt d bytes ∉ bs) →
      ∃ bytes, z.store.inner.get H d = .ok bytes := by
  have hx : ScrubInv H x := hrun.keeps (fun hK hI hs => hI.step hK hs) (.idle hdisk rfl)
  refine ⟨fun i ev hs d b hb hgone => hx.removed_corrupt hs hb hgone, ?_⟩
  intro i d b bs z hpub hv hK hs hafter hkept
  have hy : ScrubInv H y := hx.step hK hs
  have hhealthy : Healthy H y.store.inner d := by
    rw [Sys.step_publish hpub hv hs, healthy_land hx.disk hv]
    exact .inl rfl
  clear hpub hv hK hs hrun hx
  induction hafter with
  | nil => exact hhealthy.get
  | cons hK hs _ ih =>
    have hhead : ∀ bytes, _ ≠ Act.corrupt d bytes := fun bytes he =>
      hkept bytes (he ▸ List.mem_cons_self)
    exact ih (fun bytes hmem => hkept bytes (List.mem_cons_of_mem _ hmem)) (hy.step hK hs)
      (hy.healthy_step hK hs hhealthy hhead)

/-- Up to a quarantine: a blob is written, its file goes bad, a scrub condemns it, and a re-put heals
it and returns. -/
def healsCondemned : List Act :=
  [.putKeyed (.compute .short [1, 2]), .write 0 (.decide false), .write 0 (.read [1, 2]),
    .write 0 .load, .write 0 .settle, .write 0 (.read []), .write 0 .load, .write 0 .settle,
    .write 0 .publish, .write 0 .account, .write 0 .release, .write 0 (.afterWrite 0), .write 0 .ret,
    .corrupt (.compute .short [1, 2]) [1, 3],
    .scrub (.compute .short [1, 2]), .scrubStep 0 .verify,
    .putKeyed (.compute .short [1, 2]), .write 1 (.decide false), .write 1 (.read [1, 2]),
    .write 1 (.read []), .write 1 .publish, .write 1 .release, .write 1 (.afterWrite 0), .write 1 .ret]

/-- The healed copy verifies and its write has returned; the scrub's quarantine takes it out. -/
theorem healthy_copy_quarantined :
    ∃ x, run (Sys.step .short) (fun _ a => a.writesAndScrubs = true)
        (.idle (.new ⟨.disk, ∅, ∅, false⟩ (.writeOnly 10) 0 [] [])) healsCondemned = some x ∧
      x.puts.map Putter.acknowledged =
        [some (.compute .short [1, 2]), some (.compute .short [1, 2])] ∧
      x.store.inner.get .short (.compute .short [1, 2]) = .ok [1, 2] ∧
      (Sys.step .short x (.scrubStep 0 (.quarantine none))).map
        (fun y => y.store.inner.has (.compute .short [1, 2])) = some false :=
  run_exists (by decide +kernel)

/-- A store over a file that has lost a byte. -/
def lostByte (mode : StorageMode) : Sys :=
  .idle (.new ⟨.disk, Finmap.singleton (.compute .short [1, 2]) [1], ∅, false⟩ mode 0
    [⟨.compute .short [1, 2], 1⟩] [])

/-- After `as` the damaged file is still there, and the event `ev` of the scrub takes it out. -/
def TakesOut (mode : StorageMode) (as : List Act) (ev : ScrubEvent) (x y : Sys) : Prop :=
  run (Sys.step .short) VerdictsFresh (lostByte mode) as = some x ∧
    Sys.step .short x (.scrubStep 0 ev) = some y ∧
    x.store.inner.blobs.lookup (.compute .short [1, 2]) = some [1] ∧
    y.store.inner.blobs.lookup (.compute .short [1, 2]) ≠ some [1]

theorem takesOut_of_run (mode : StorageMode) (as : List Act) (ev : ScrubEvent)
    (h : ((run (Sys.step .short) VerdictsFresh (lostByte mode) as).any fun x =>
      decide (x.store.inner.blobs.lookup (.compute .short [1, 2]) = some [1]) &&
        (Sys.step .short x (.scrubStep 0 ev)).any fun y =>
          decide (y.store.inner.blobs.lookup (.compute .short [1, 2]) ≠ some [1])) = true) :
    ∃ x y, TakesOut mode as ev x y := by
  obtain ⟨x, hx, hrest⟩ := (Option.any_eq_true _ _).mp h
  obtain ⟨hb, hstep⟩ := (Bool.and_eq_true _ _).mp hrest
  obtain ⟨y, hy, hgone⟩ := (Option.any_eq_true _ _).mp hstep
  exact ⟨x, y, hx, hy, of_decide_eq_true hb, of_decide_eq_true hgone⟩

/-- Up to its publish: a put after the damaged file was moved aside. -/
def putAfterScrub : List Act :=
  [.scrub (.compute .short [1, 2]), .scrubStep 0 .verify, .scrubStep 0 (.quarantine none),
    .putKeyed (.compute .short [1, 2]), .write 0 (.decide false), .write 0 (.read [1, 2]),
    .write 0 .load, .write 0 .settle, .write 0 (.read []), .write 0 .load, .write 0 .settle]

/-- The rule at work: in `lru` mode a scrub unlinks a corrupt copy under the commit lock, and in
`write_only` mode it moves one aside. The put that follows is readable, also after the next scrub. -/
theorem scrub_removes_only_corrupt_lost_byte :
    (∃ x y, TakesOut (.lru 9 60) [.scrub (.compute .short [1, 2]), .scrubStep 0 .verify,
        .scrubStep 0 .recheck, .scrubStep 0 .lock] .unlink x y ∧
      (Digest.compute .short [1, 2]).verify .short [1] = false) ∧
    (∃ x y, TakesOut (.writeOnly 9) [.scrub (.compute .short [1, 2]), .scrubStep 0 .verify]
        (.quarantine none) x y ∧
      (Digest.compute .short [1, 2]).verify .short [1] = false) ∧
    ∃ x y z, run (Sys.step .short) VerdictsFresh (lostByte (.writeOnly 9)) putAfterScrub = some x ∧
      Sys.step .short x (.write 0 .publish) = some y ∧
      run (Sys.step .short) VerdictsFresh y
        [.scrub (.compute .short [1, 2]), .scrubStep 1 .verify] = some z ∧
      ∃ bytes, z.store.inner.get .short (.compute .short [1, 2]) = .ok bytes := by
  refine ⟨?_, ?_, ?_⟩
  · obtain ⟨x, y, h⟩ := takesOut_of_run (.lru 9 60) [.scrub (.compute .short [1, 2]),
      .scrubStep 0 .verify, .scrubStep 0 .recheck, .scrubStep 0 .lock] .unlink (by decide +kernel)
    exact ⟨x, y, h, (scrub_removes_only_corrupt rfl (run_sound h.1)).1 0 _ h.2.1 _ _ h.2.2.1 h.2.2.2⟩
  · obtain ⟨x, y, h⟩ := takesOut_of_run (.writeOnly 9) [.scrub (.compute .short [1, 2]),
      .scrubStep 0 .verify] (.quarantine none) (by decide +kernel)
    exact ⟨x, y, h, (scrub_removes_only_corrupt rfl (run_sound h.1)).1 0 _ h.2.1 _ _ h.2.2.1 h.2.2.2⟩
  · obtain ⟨x, hx, hpub, hfresh, hrest⟩ : ∃ x,
        run (Sys.step .short) VerdictsFresh (lostByte (.writeOnly 9)) putAfterScrub = some x ∧
        x.publishing (.write 0 .publish) = some (.compute .short [1, 2], [1, 2]) ∧
        VerdictsFresh x (.write 0 .publish) ∧
        ((Sys.step .short x (.write 0 .publish)).any fun y => (run (Sys.step .short) VerdictsFresh y
          [.scrub (.compute .short [1, 2]), .scrubStep 1 .verify]).isSome) = true :=
      run_exists (by decide +kernel)
    obtain ⟨y, hy, hz⟩ := (Option.any_eq_true _ _).mp hrest
    obtain ⟨z, hz⟩ := Option.isSome_iff_exists.mp hz
    exact ⟨x, y, z, hx, hy, hz, (scrub_removes_only_corrupt rfl (run_sound hx)).2 0 _ _ _ z hpub
      (by decide) hfresh hy (run_sound hz) (by simp)⟩

end NessieStore
