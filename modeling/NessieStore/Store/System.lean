import NessieStore.Lib.Pool
import NessieStore.Lib.Run
import NessieStore.Store.Evict
import NessieStore.Store.Scrub
import NessieStore.Store.Write

/-!
# One store and everything that runs against it

A `Sys` is a store beside the calls that are running: writes, eviction passes and scrubs, any number
of each. A step starts a call, moves one, or is one of the atomic methods; `corrupt` is the disk
losing bits, which leaves a file whose bytes no longer hash to its name. An interleaving is a run of
`Sys.step`, and the labels a run permits say which calls are running.

A method that fails before it changes anything is no step here. A quarantine can fail after: its step
says whether the stat of the moved file did.
-/

set_option autoImplicit false

namespace NessieStore

open Lib

structure Sys where
  store : CasStore
  puts : List Putter
  evicts : List Evictor
  scrubs : List Scrubber

inductive Act
  /-- A `put` is called. -/
  | put
  | putKeyed (d : Digest)
  /-- The `i`th write takes a step. -/
  | write (i : Nat) (ev : WriteEvent)
  | evict
  | evictStep (i : Nat) (ev : EvictEvent)
  | scrub (d : Digest)
  | scrubStep (i : Nat) (ev : ScrubEvent)
  /-- `CasStore::quarantine`. -/
  | quarantine (d : Digest) (stat : Option String)
  /-- `CasStore::committed` or `abandon`. -/
  | release (d : Digest)
  /-- `CasStore::get` of a blob that verifies. -/
  | get (d : Digest)
  /-- The file of `d` now reads `bytes`, which do not hash to `d`. -/
  | corrupt (d : Digest) (bytes : Bytes)

/-- A store with nothing running. -/
def Sys.idle (s : CasStore) : Sys := ⟨s, [], [], []⟩

namespace Sys

variable (H : HashFn)

def step (x : Sys) : Act → Option Sys
  | .put => some { x with puts := x.puts ++ [.spooling []] }
  | .putKeyed d => some { x with puts := x.puts ++ [.keyed ⟨d, .stream, .entered⟩] }
  | .write i ev =>
    (stepAt (fun s p => Putter.step H s p ev) x.store x.puts i).map fun r =>
      { x with store := r.1, puts := r.2 }
  | .evict => some { x with evicts := x.evicts ++ [.start] }
  | .evictStep i ev =>
    (stepAt (fun s e => Evictor.step s e ev) x.store x.evicts i).map fun r =>
      { x with store := r.1, evicts := r.2 }
  | .scrub d => some { x with scrubs := x.scrubs ++ [.start d] }
  | .scrubStep i ev =>
    (stepAt (fun s c => Scrubber.step H s c ev) x.store x.scrubs i).map fun r =>
      { x with store := r.1, scrubs := r.2 }
  | .quarantine d stat => some { x with store := (x.store.quarantine d stat).2 }
  | .release d => some { x with store := x.store.releaseGuard d }
  | .get d =>
    match x.store.inner.get H d with
    | .ok _ => some { x with store := { x.store with
        state := { x.store.state with access := x.store.state.access.touch d } } }
    | .error _ => none
  | .corrupt d bytes =>
    if x.store.inner.kind = .disk ∧ x.store.inner.has d ∧ d.verify H bytes = false then
      some { x with store := { x.store with
        inner := { x.store.inner with blobs := x.store.inner.blobs.insert d bytes } } }
    else none

/-- The digest and the bytes that the step would publish, if they verify. -/
def publishing (x : Sys) : Act → Option (Digest × Bytes)
  | .write i .publish =>
    match x.puts[i]? with
    | some (.keyed w) => some (w.expected, w.phase.got)
    | _ => none
  | _ => none

/-- The digest that the step would reclaim. -/
def reclaiming (x : Sys) : Act → Option Digest
  | .evictStep i .reclaim =>
    match x.evicts[i]?, x.store.mode with
    | some (.draining ((victim, _) :: _) used _), .lru budget _ =>
      if budget < used then some victim.digest else none
    | _, _ => none
  | _ => none

variable {H}

theorem publishing_keyed {x : Sys} {i : Nat} {w : Writer} (h : x.puts[i]? = some (.keyed w)) :
    x.publishing (.write i .publish) = some (w.expected, w.phase.got) := by
  simp only [publishing, h]

/-! ## One step, by who moved -/

theorem step_write {x y : Sys} {i : Nat} {ev : WriteEvent} (h : step H x (.write i ev) = some y) :
    ∃ p s' p', x.puts[i]? = some p ∧ Putter.step H x.store p ev = some (s', p') ∧
      y = { x with store := s', puts := x.puts.set i p' } := by
  obtain ⟨r, hr, rfl⟩ := Option.map_eq_some_iff.mp h
  obtain ⟨p, s', p', hi, hp, rfl⟩ := stepAt_eq_some.mp hr
  exact ⟨p, s', p', hi, hp, rfl⟩

/-- A publish of bytes that verify lands them. -/
theorem step_publish {x y : Sys} {i : Nat} {d : Digest} {b : Bytes}
    (hpub : x.publishing (.write i .publish) = some (d, b)) (hv : d.verify H b = true)
    (h : step H x (.write i .publish) = some y) : y.store = x.store.land d b := by
  obtain ⟨p, s', p', hi, hp, rfl⟩ := step_write h
  rcases Putter.step_cases hp with ⟨w, w', rfl, rfl, hmove⟩ | ⟨rfl, got, rfl, -⟩
  · rw [publishing_keyed hi] at hpub
    cases hpub
    cases hmove with
    | landUngated => rfl
    | landGated => rfl
    | rejectUngated hbad => cases hbad.symm.trans hv
    | rejectGated hbad => cases hbad.symm.trans hv
  · simp [publishing, hi] at hpub

theorem step_evict {x y : Sys} {i : Nat} {ev : EvictEvent}
    (h : step H x (.evictStep i ev) = some y) :
    ∃ e s' e', x.evicts[i]? = some e ∧ Evictor.Moves x.store e ev s' e' ∧
      y = { x with store := s', evicts := x.evicts.set i e' } := by
  obtain ⟨r, hr, rfl⟩ := Option.map_eq_some_iff.mp h
  obtain ⟨e, s', e', hi, he, rfl⟩ := stepAt_eq_some.mp hr
  exact ⟨e, s', e', hi, Evictor.moves_of_step he, rfl⟩

theorem step_scrub {x y : Sys} {i : Nat} {ev : ScrubEvent}
    (h : step H x (.scrubStep i ev) = some y) :
    ∃ c s' c', x.scrubs[i]? = some c ∧ Scrubber.Moves H x.store c ev s' c' ∧
      y = { x with store := s', scrubs := x.scrubs.set i c' } := by
  obtain ⟨r, hr, rfl⟩ := Option.map_eq_some_iff.mp h
  obtain ⟨c, s', c', hi, hc, rfl⟩ := stepAt_eq_some.mp hr
  exact ⟨c, s', c', hi, Scrubber.moves_of_step hc, rfl⟩

/-- A disk file was there and now fails verification. -/
theorem step_corrupt {x y : Sys} {d : Digest} {bytes : Bytes}
    (h : step H x (.corrupt d bytes) = some y) :
    x.store.inner.kind = .disk ∧ x.store.inner.has d = true ∧ d.verify H bytes = false ∧
      y = { x with store := { x.store with
        inner := { x.store.inner with blobs := x.store.inner.blobs.insert d bytes } } } := by
  simp only [step] at h
  split at h
  · next hc => cases h; exact ⟨hc.1, hc.2.1, hc.2.2, rfl⟩
  · cases h

theorem step_get {x y : Sys} {d : Digest} (h : step H x (.get d) = some y) :
    y = { x with store := { x.store with
      state := { x.store.state with access := x.store.state.access.touch d } } } := by
  simp only [step] at h
  split at h
  · cases h; rfl
  · cases h

/-! ## The registrations count the running re-puts -/

/-- The count kept per digest is the number of registered re-puts. -/
def Registered (x : Sys) : Prop := ∀ d, x.store.fast d = weigh (Putter.registered d) x.puts

theorem registered_idle {s : CasStore} (h : s.state.fastInflight = ∅) : (idle s).Registered :=
  fun d => by simp [idle, CasStore.fast, h]

theorem Registered.write {x : Sys} (h : x.Registered) {i : Nat} {p p' : Putter} {s' : CasStore}
    (hi : x.puts[i]? = some p)
    (hd : ∀ d, s'.fast d + p.registered d = x.store.fast d + p'.registered d) :
    ({ x with store := s', puts := x.puts.set i p' } : Sys).Registered := fun d => by
  have hset := weigh_set (f := Putter.registered d) hi p'
  have hold := h d
  have hnew := hd d
  show s'.fast d = weigh _ (x.puts.set i p')
  omega

/-- Dropping a registration takes one off the count, when it was counted. -/
theorem drop_fast {s : CasStore} {d₀ : Digest} {reg : Bool} (hpos : reg = true → 0 < s.fast d₀)
    (d : Digest) : (if reg then s.deregister d₀ else s).fast d +
      (if d₀ = d ∧ reg = true then 1 else 0) = s.fast d := by
  cases reg with
  | false => simp
  | true =>
    have h0 := hpos rfl
    rw [if_pos rfl, CasStore.deregister_fast]
    by_cases hd : d = d₀
    · subst hd
      simp only [and_self, if_true]
      omega
    · simp [hd, Ne.symm hd]

/-- Registering and dropping are the only moves that change the count, each by its own write. -/
theorem fast_of_moves {s s' : CasStore} {w w' : Writer} {ev : WriteEvent}
    (h : Writer.Moves H s w ev s' w') (hpos : w.phase.registered = true → 0 < s.fast w.expected)
    (d : Digest) : s'.fast d + (Putter.keyed w).registered d =
      s.fast d + (Putter.keyed w').registered d := by
  cases h with
  | @fast d₀ =>
    rw [CasStore.register_fast]
    by_cases hd : d = d₀
    · simp [Putter.registered, Phase.registered, hd]
    · simp [Putter.registered, Phase.registered, hd, Ne.symm hd]
  | doneOk => exact (drop_fast hpos d).trans (by simp [Putter.registered, Phase.registered])
  | doneError => exact (drop_fast hpos d).trans (by simp [Putter.registered, Phase.registered])
  | account => rw [CasStore.account_fast]; rfl
  | _ => rfl

theorem Registered.step {x y : Sys} {a : Act} (h : x.Registered) (hs : step H x a = some y) :
    y.Registered := by
  cases a with
  | put => cases hs; exact fun d => by simpa [Putter.registered] using h d
  | putKeyed d =>
    cases hs
    exact fun d => by simpa [Putter.registered, Phase.registered] using h d
  | write i ev =>
    obtain ⟨p, s', p', hi, hp, rfl⟩ := step_write hs
    rcases Putter.step_cases hp with ⟨w, w', rfl, rfl, hmove⟩ | ⟨rfl, got, rfl, hspool⟩
    · refine h.write hi (fast_of_moves hmove fun hreg => ?_)
      have hle := le_weigh (f := Putter.registered w.expected) (List.mem_of_getElem? hi)
      simp only [Putter.registered, hreg, and_self, if_true] at hle
      rw [h w.expected]
      exact hle
    · refine h.write hi fun d => ?_
      rcases hspool with ⟨got', rfl⟩ | ⟨e, rfl⟩ | ⟨cap, hm, rfl⟩ | ⟨budget, grace, hm, rfl⟩
      · rfl
      · rfl
      · simp [Putter.registered, Phase.registered]
      · simp [Putter.registered, Phase.registered]
  | evict => cases hs; exact h
  | evictStep i ev =>
    obtain ⟨e, s', e', hi, hmove, rfl⟩ := step_evict hs
    cases hmove <;> exact h
  | scrub d => cases hs; exact h
  | scrubStep i ev =>
    obtain ⟨c, s', c', hi, hmove, rfl⟩ := step_scrub hs
    cases hmove with
    | quarantine hm => exact fun d => (CasStore.quarantine_fast _ _ _ d).trans (h d)
    | _ => exact h
  | quarantine d stat => cases hs; exact fun d' => (CasStore.quarantine_fast _ _ _ d').trans (h d')
  | release d => cases hs; exact h
  | get d => rw [step_get hs]; exact h
  | corrupt d bytes =>
    obtain ⟨-, -, -, rfl⟩ := step_corrupt hs
    exact h

/-- A registered re-put is visible to `quarantine`. -/
theorem Registered.defers {x : Sys} (h : x.Registered) {w : Writer} (hw : .keyed w ∈ x.puts)
    (hreg : w.phase.registered = true) : x.store.state.fastInflight.lookup w.expected ≠ none := by
  intro hnone
  have hcount := h w.expected
  have hle := le_weigh (f := Putter.registered w.expected) hw
  simp only [Putter.registered, hreg, and_self, if_true] at hle
  simp only [CasStore.fast, hnone, Option.getD_none] at hcount
  omega

end Sys

end NessieStore
