import NessieStore.Store.State

/-!
# The write path, step by step

`CasStore::put` and `put_keyed` (`nessie-cas-store`, `store.rs`) over a backend's `put` and
`put_keyed`, cut where another call can come between: the locked already-held decision, each read of
the source, the gate's `fetch_add`, its load of `committed`, its verdict, the backend's atomic
publish, `account`, the drop of the gate or of the re-put's registration, `after_write`, the return.

A call is a `Putter`: a `put` first reads its source to the end, to learn the digest, and is a
`Writer` of that digest from there on. The label of a step carries what the environment chose: the
next chunk, an I/O error, the clock. `Writer.Moves` is the same step function read as a relation,
one constructor for each thing a writer can do; the proofs use it and never unfold the function.
-/

set_option autoImplicit false

namespace NessieStore

open Lib

/-- Where a writer's bytes come from: the caller's reader, or a body already in memory. -/
inductive Source
  | stream
  | body (rest : Bytes)
deriving DecidableEq

/-- The source after a read that returned `chunk`; a buffer returns its own bytes, and nothing only
at its end. -/
def Source.read : Source → Bytes → Option Source
  | .stream, _ => some .stream
  | .body rest, chunk =>
    if chunk.isPrefixOf rest ∧ (chunk = [] → rest = []) then some (.body (rest.drop chunk.length))
    else none

/-- How far a keyed write is. -/
inductive Phase
  | entered
  /-- Streaming into a temporary file without a gate; `registered` on the `write_only` fast path. -/
  | ungated (registered : Bool) (got : Bytes) (eof : Bool)
  | ungatedDone (registered : Bool) (out : Except BackendError Unit)
  /-- Streaming through the gate, which has accepted `mine` bytes. -/
  | gated (got : Bytes) (mine : Nat) (eof : Bool)
  /-- `pending` has been raised by the chunk; `before` is what it was. -/
  | added (got : Bytes) (mine : Nat) (chunk : Bytes) (before : Nat)
  | loaded (got : Bytes) (mine : Nat) (chunk : Bytes) (before seen : Nat)
  /-- The backend gave up; no error yet when it was the gate that tripped. -/
  | refused (mine : Nat) (err : Option BackendError)
  | published (mine : Nat)
  | charged (mine : Nat)
  | stored
  | guarded
  | returned (out : Except BackendError Unit)
deriving DecidableEq

/-- The bytes streamed so far, while they are being streamed. -/
def Phase.got : Phase → Bytes
  | .ungated _ got _ | .gated got _ _ | .added got _ _ _ | .loaded got _ _ _ _ => got
  | _ => []

/-- What the gate of this write has put into `pending`. -/
def Phase.reserved : Phase → Nat
  | .gated _ mine _ | .refused mine _ | .published mine | .charged mine => mine
  | .added _ mine chunk _ | .loaded _ mine chunk _ _ => mine + chunk.length
  | _ => 0

/-- The `mine` of a write that has published and not yet charged. -/
def Phase.uncharged : Phase → Nat
  | .published mine => mine
  | _ => 0

/-- The write is on the fast path and has not dropped its registration. -/
def Phase.registered : Phase → Bool
  | .ungated reg _ _ | .ungatedDone reg _ => reg
  | _ => false

/-- The write has published and has not returned. -/
def Phase.landed : Phase → Bool
  | .ungatedDone _ (.ok _) | .published _ | .charged _ | .stored | .guarded => true
  | _ => false

/-- A `put_keyed` call. -/
structure Writer where
  expected : Digest
  source : Source
  phase : Phase
deriving DecidableEq

/-- What can happen to a write. -/
inductive WriteEvent
  /-- The already-held decision; `statFailed` when `has` answered an error. -/
  | decide (statFailed : Bool)
  /-- The source returned these bytes, none at its end. -/
  | read (chunk : Bytes)
  /-- A read, a temporary file, a sync or the commit failed. -/
  | fail (message : String)
  | load
  | settle
  | publish
  | account
  /-- The gate, or the registration, is dropped. -/
  | release
  | afterWrite (now : Nat)
  | ret
deriving DecidableEq

/-- The gate's test on a chunk of `n` bytes. -/
def fits (capacity seen before n : Nat) : Bool :=
  saturatingAdd (saturatingAdd seen before) n ≤ capacity

namespace Writer

variable (H : HashFn)

/-- One step of a keyed write; `none` when the event cannot happen here. -/
def step (s : CasStore) (w : Writer) : WriteEvent → Option (CasStore × Writer)
  | .decide statFailed =>
    match w.phase, s.mode with
    | .entered, .lru .. => some (s, { w with phase := .ungated false [] false })
    | .entered, .writeOnly _ =>
      -- a failing `has` counts as not held
      if (s.state.accounted.lookup w.expected).isSome ∨ (!statFailed && s.inner.has w.expected) then
        some (s.register w.expected, { w with phase := .ungated true [] false })
      else some (s, { w with phase := .gated [] 0 false })
    | _, _ => none
  | .read chunk =>
    match w.phase, w.source.read chunk with
    | .ungated reg got false, some source =>
      some (s, { w with source, phase := .ungated reg (got ++ chunk) chunk.isEmpty })
    | .gated got mine false, some source =>
      some ({ s with pending := s.pending + chunk.length },
        { w with source, phase := .added got mine chunk s.pending })
    | _, _ => none
  | .fail message =>
    match w.phase with
    | .ungated reg _ _ => some (s, { w with phase := .ungatedDone reg (.error (.internal message)) })
    | .gated _ mine _ => some (s, { w with phase := .refused mine (some (.internal message)) })
    | _ => none
  | .load =>
    match w.phase, s.mode with
    | .added got mine chunk before, _ =>
      some (s, { w with phase := .loaded got mine chunk before s.committed })
    | .refused mine none, .writeOnly capacity =>
      some (s, { w with phase := .refused mine (some (.capacityExceeded s.committed mine capacity)) })
    | _, _ => none
  | .settle =>
    match w.phase, s.mode with
    | .loaded got mine chunk before seen, .writeOnly capacity =>
      if fits capacity seen before chunk.length then
        some (s, { w with phase := .gated (got ++ chunk) (mine + chunk.length) chunk.isEmpty })
      else
        some ({ s with pending := s.pending - chunk.length }, { w with phase := .refused mine none })
    | _, _ => none
  | .publish =>
    match w.phase with
    | .ungated reg got true =>
      if w.expected.verify H got then
        if s.inner.commitLock then none
        else some (s.land w.expected got, { w with phase := .ungatedDone reg (.ok ()) })
      else some (s, { w with phase := .ungatedDone reg (.error (mismatch w.expected)) })
    | .gated got mine true =>
      if w.expected.verify H got then
        if s.inner.commitLock then none
        else some (s.land w.expected got, { w with phase := .published mine })
      else some (s, { w with phase := .refused mine (some (mismatch w.expected)) })
    | _ => none
  | .account =>
    match w.phase with
    | .published mine => some (s.account w.expected mine, { w with phase := .charged mine })
    | _ => none
  | .release =>
    match w.phase with
    | .refused mine (some e) =>
      some ({ s with pending := s.pending - mine }, { w with phase := .returned (.error e) })
    | .charged mine => some ({ s with pending := s.pending - mine }, { w with phase := .stored })
    | .ungatedDone reg out =>
      some (if reg then s.deregister w.expected else s,
        { w with phase := match out with | .ok _ => .stored | .error e => .returned (.error e) })
    | _ => none
  | .afterWrite now =>
    match w.phase with
    | .stored => some (s.afterWrite w.expected now, { w with phase := .guarded })
    | _ => none
  | .ret =>
    match w.phase with
    | .guarded => some (s, { w with phase := .returned (.ok ()) })
    | _ => none

/-- What a keyed write can do, one constructor for each transition. -/
inductive Moves : CasStore → Writer → WriteEvent → CasStore → Writer → Prop
  | direct {s : CasStore} {d : Digest} {src : Source} {statFailed : Bool} {budget grace : Nat}
      (hm : s.mode = .lru budget grace) :
      Moves s ⟨d, src, .entered⟩ (.decide statFailed) s ⟨d, src, .ungated false [] false⟩
  | fast {s : CasStore} {d : Digest} {src : Source} {statFailed : Bool} {capacity : Nat}
      (hm : s.mode = .writeOnly capacity)
      (held : (s.state.accounted.lookup d).isSome ∨ statFailed = false ∧ s.inner.has d = true) :
      Moves s ⟨d, src, .entered⟩ (.decide statFailed) (s.register d) ⟨d, src, .ungated true [] false⟩
  | gate {s : CasStore} {d : Digest} {src : Source} {statFailed : Bool} {capacity : Nat}
      (hm : s.mode = .writeOnly capacity) (hacc : s.state.accounted.lookup d = none)
      (hnew : statFailed = true ∨ s.inner.has d = false) :
      Moves s ⟨d, src, .entered⟩ (.decide statFailed) s ⟨d, src, .gated [] 0 false⟩
  | read {s : CasStore} {d : Digest} {src src' : Source} {reg : Bool} {got chunk : Bytes}
      (hr : src.read chunk = some src') :
      Moves s ⟨d, src, .ungated reg got false⟩ (.read chunk) s
        ⟨d, src', .ungated reg (got ++ chunk) chunk.isEmpty⟩
  | add {s : CasStore} {d : Digest} {src src' : Source} {got chunk : Bytes} {mine : Nat}
      (hr : src.read chunk = some src') :
      Moves s ⟨d, src, .gated got mine false⟩ (.read chunk)
        { s with pending := s.pending + chunk.length } ⟨d, src', .added got mine chunk s.pending⟩
  | failUngated {s : CasStore} {d : Digest} {src : Source} {reg eof : Bool} {got : Bytes}
      {message : String} :
      Moves s ⟨d, src, .ungated reg got eof⟩ (.fail message) s
        ⟨d, src, .ungatedDone reg (.error (.internal message))⟩
  | failGated {s : CasStore} {d : Digest} {src : Source} {eof : Bool} {got : Bytes} {mine : Nat}
      {message : String} :
      Moves s ⟨d, src, .gated got mine eof⟩ (.fail message) s
        ⟨d, src, .refused mine (some (.internal message))⟩
  | load {s : CasStore} {d : Digest} {src : Source} {got chunk : Bytes} {mine before : Nat} :
      Moves s ⟨d, src, .added got mine chunk before⟩ .load s
        ⟨d, src, .loaded got mine chunk before s.committed⟩
  | blame {s : CasStore} {d : Digest} {src : Source} {mine capacity : Nat}
      (hm : s.mode = .writeOnly capacity) :
      Moves s ⟨d, src, .refused mine none⟩ .load s
        ⟨d, src, .refused mine (some (.capacityExceeded s.committed mine capacity))⟩
  | accept {s : CasStore} {d : Digest} {src : Source} {got chunk : Bytes}
      {mine before seen capacity : Nat} (hm : s.mode = .writeOnly capacity)
      (hfits : fits capacity seen before chunk.length = true) :
      Moves s ⟨d, src, .loaded got mine chunk before seen⟩ .settle s
        ⟨d, src, .gated (got ++ chunk) (mine + chunk.length) chunk.isEmpty⟩
  | trip {s : CasStore} {d : Digest} {src : Source} {got chunk : Bytes}
      {mine before seen capacity : Nat} (hm : s.mode = .writeOnly capacity)
      (hfits : fits capacity seen before chunk.length = false) :
      Moves s ⟨d, src, .loaded got mine chunk before seen⟩ .settle
        { s with pending := s.pending - chunk.length } ⟨d, src, .refused mine none⟩
  | landUngated {s : CasStore} {d : Digest} {src : Source} {reg : Bool} {got : Bytes}
      (hv : d.verify H got = true) (hlock : s.inner.commitLock = false) :
      Moves s ⟨d, src, .ungated reg got true⟩ .publish (s.land d got)
        ⟨d, src, .ungatedDone reg (.ok ())⟩
  | rejectUngated {s : CasStore} {d : Digest} {src : Source} {reg : Bool} {got : Bytes}
      (hv : d.verify H got = false) :
      Moves s ⟨d, src, .ungated reg got true⟩ .publish s
        ⟨d, src, .ungatedDone reg (.error (mismatch d))⟩
  | landGated {s : CasStore} {d : Digest} {src : Source} {got : Bytes} {mine : Nat}
      (hv : d.verify H got = true) (hlock : s.inner.commitLock = false) :
      Moves s ⟨d, src, .gated got mine true⟩ .publish (s.land d got) ⟨d, src, .published mine⟩
  | rejectGated {s : CasStore} {d : Digest} {src : Source} {got : Bytes} {mine : Nat}
      (hv : d.verify H got = false) :
      Moves s ⟨d, src, .gated got mine true⟩ .publish s
        ⟨d, src, .refused mine (some (mismatch d))⟩
  | account {s : CasStore} {d : Digest} {src : Source} {mine : Nat} :
      Moves s ⟨d, src, .published mine⟩ .account (s.account d mine) ⟨d, src, .charged mine⟩
  | dropRefused {s : CasStore} {d : Digest} {src : Source} {mine : Nat} {e : BackendError} :
      Moves s ⟨d, src, .refused mine (some e)⟩ .release { s with pending := s.pending - mine }
        ⟨d, src, .returned (.error e)⟩
  | dropCharged {s : CasStore} {d : Digest} {src : Source} {mine : Nat} :
      Moves s ⟨d, src, .charged mine⟩ .release { s with pending := s.pending - mine }
        ⟨d, src, .stored⟩
  | doneOk {s : CasStore} {d : Digest} {src : Source} {reg : Bool} :
      Moves s ⟨d, src, .ungatedDone reg (.ok ())⟩ .release (if reg then s.deregister d else s)
        ⟨d, src, .stored⟩
  | doneError {s : CasStore} {d : Digest} {src : Source} {reg : Bool} {e : BackendError} :
      Moves s ⟨d, src, .ungatedDone reg (.error e)⟩ .release (if reg then s.deregister d else s)
        ⟨d, src, .returned (.error e)⟩
  | afterWrite {s : CasStore} {d : Digest} {src : Source} {now : Nat} :
      Moves s ⟨d, src, .stored⟩ (.afterWrite now) (s.afterWrite d now) ⟨d, src, .guarded⟩
  | ret {s : CasStore} {d : Digest} {src : Source} :
      Moves s ⟨d, src, .guarded⟩ .ret s ⟨d, src, .returned (.ok ())⟩

variable {H}

/-- The step function takes no step but these. -/
theorem moves_of_step {s s' : CasStore} {w w' : Writer} {ev : WriteEvent}
    (h : step H s w ev = some (s', w')) : Moves H s w ev s' w' := by
  obtain ⟨d, src, phase⟩ := w
  cases ev with
  | decide statFailed =>
    simp only [step] at h
    split at h
    · next hm => cases h; exact .direct hm
    · next hm =>
      split at h
      · next held => cases h; exact .fast hm (by simpa using held)
      · next hnew =>
        cases h
        rw [not_or] at hnew
        refine .gate hm (by simpa using hnew.1) ?_
        cases statFailed <;> simp_all
    · cases h
  | read chunk =>
    simp only [step] at h
    split at h
    · next hr => cases h; exact .read hr
    · next hr => cases h; exact .add hr
    · cases h
  | fail message =>
    simp only [step] at h
    split at h
    · cases h; exact .failUngated
    · cases h; exact .failGated
    · cases h
  | load =>
    simp only [step] at h
    split at h
    · cases h; exact .load
    · next hm => cases h; exact .blame hm
    · cases h
  | settle =>
    simp only [step] at h
    split at h
    · next hm =>
      split at h
      · next hf => cases h; exact .accept hm hf
      · next hf => cases h; exact .trip hm (Bool.eq_false_iff.mpr hf)
    · cases h
  | publish =>
    simp only [step] at h
    split at h
    · split at h
      · next hv =>
        split at h
        · cases h
        · next hl => cases h; exact .landUngated hv (Bool.eq_false_iff.mpr hl)
      · next hv => cases h; exact .rejectUngated (Bool.eq_false_iff.mpr hv)
    · split at h
      · next hv =>
        split at h
        · cases h
        · next hl => cases h; exact .landGated hv (Bool.eq_false_iff.mpr hl)
      · next hv => cases h; exact .rejectGated (Bool.eq_false_iff.mpr hv)
    · cases h
  | account =>
    simp only [step] at h
    split at h
    · cases h; exact .account
    · cases h
  | release =>
    simp only [step] at h
    split at h
    · cases h; exact .dropRefused
    · cases h; exact .dropCharged
    · next reg out =>
      cases h
      cases out with
      | ok u => exact .doneOk
      | error e => exact .doneError
    · cases h
  | afterWrite now =>
    simp only [step] at h
    split at h
    · cases h; exact .afterWrite
    · cases h
  | ret =>
    simp only [step] at h
    split at h
    · cases h; exact .ret
    · cases h

namespace Moves

variable {s s' : CasStore} {w w' : Writer} {ev : WriteEvent}

theorem mode_eq (h : Moves H s w ev s' w') : s'.mode = s.mode := by
  cases h with
  | account => exact CasStore.account_mode _ _ _
  | doneOk => exact (SameBooks.deregister _ _ _).mode
  | doneError => exact (SameBooks.deregister _ _ _).mode
  | _ => rfl

/-- A write leaves the blobs alone, or it publishes: what it has read verifies, the commit lock is
free, and it is the ungated or the gated write that has come to its end. -/
theorem inner_cases (h : Moves H s w ev s' w') : s'.inner = s.inner ∨
    ev = .publish ∧ s.inner.commitLock = false ∧ w.expected.verify H w.phase.got = true ∧
      s' = s.land w.expected w.phase.got ∧
      ((∃ reg got, w.phase = .ungated reg got true ∧ w'.phase = .ungatedDone reg (.ok ())) ∨
        ∃ got mine, w.phase = .gated got mine true ∧ w'.phase = .published mine) := by
  cases h with
  | landUngated hv hlock => exact .inr ⟨rfl, hlock, hv, rfl, .inl ⟨_, _, rfl, rfl⟩⟩
  | landGated hv hlock => exact .inr ⟨rfl, hlock, hv, rfl, .inr ⟨_, _, rfl, rfl⟩⟩
  | account => exact .inl (CasStore.account_inner _ _ _)
  | doneOk => exact .inl (SameBooks.deregister _ _ _).inner
  | doneError => exact .inl (SameBooks.deregister _ _ _).inner
  | _ => exact .inl rfl

/-- A write never takes a blob away. -/
theorem has_mono (h : Moves H s w ev s' w') (d : Digest) (hd : s.inner.has d = true) :
    s'.inner.has d = true := by
  rcases h.inner_cases with heq | ⟨-, -, -, rfl, -⟩
  · rw [heq]
    exact hd
  · simp [CasStore.land, LocalCas.has_land, hd]

/-- A write changes the guard only where it runs `after_write`. -/
theorem inFlight_cases (h : Moves H s w ev s' w') : s'.state.inFlight = s.state.inFlight ∨
    w.phase.landed = true ∧ s'.state.inFlight = insert w.expected s.state.inFlight := by
  cases h with
  | account => exact .inl (CasStore.account_inFlight _ _ _)
  | @doneOk d src reg =>
    obtain ⟨fast, hfast⟩ := s.deregister_eq d
    cases reg <;> simp [hfast]
  | @doneError d src reg e =>
    obtain ⟨fast, hfast⟩ := s.deregister_eq d
    cases reg <;> simp [hfast]
  | afterWrite => exact .inr ⟨rfl, rfl⟩
  | _ => exact .inl rfl

/-- A write never takes a guard away. -/
theorem inFlight_subset (h : Moves H s w ev s' w') :
    s.state.inFlight ⊆ s'.state.inFlight := by
  rcases h.inFlight_cases with heq | ⟨-, heq⟩
  · rw [heq]
  · rw [heq]
    exact Finset.subset_insert _ _

theorem expected_eq (h : Moves H s w ev s' w') : w'.expected = w.expected := by
  cases h <;> rfl

/-- A write is past its publish because it was, or because this is it. -/
theorem landed_cases (h : Moves H s w ev s' w') (hl : w'.phase.landed = true) :
    w.phase.landed = true ∨ ev = .publish ∧ w.expected.verify H w.phase.got = true ∧
      s' = s.land w.expected w.phase.got := by
  cases h with
  | landUngated hv hlock => exact .inr ⟨rfl, hv, rfl⟩
  | landGated hv hlock => exact .inr ⟨rfl, hv, rfl⟩
  | account => exact .inl rfl
  | dropCharged => exact .inl rfl
  | doneOk => exact .inl rfl
  | afterWrite => exact .inl rfl
  | _ => cases hl

/-- A write holds what it has published, since nothing it does takes it away. -/
theorem has_of_landed (h : Moves H s w ev s' w')
    (hw : w.phase.landed = true → s.inner.has w.expected = true)
    (hl : w'.phase.landed = true) : s'.inner.has w'.expected = true := by
  rw [h.expected_eq]
  rcases h.landed_cases hl with hold | ⟨-, -, rfl⟩
  · exact h.has_mono w.expected (hw hold)
  · simp [CasStore.land, LocalCas.has_land]

/-- A write returns `Ok` from its guarded phase. -/
theorem guarded_of_returned (h : Moves H s w ev s' w') (hret : w'.phase = .returned (.ok ())) :
    w.phase = .guarded := by
  cases h with
  | ret => rfl
  | _ => cases hret

/-- A write that reaches its end is guarded. -/
theorem mem_inFlight_of_guarded (h : Moves H s w ev s' w') (hg : w'.phase = .guarded) :
    w'.expected ∈ s'.state.inFlight := by
  cases h with
  | afterWrite => exact Finset.mem_insert_self _ _
  | _ => cases hg

end Moves

end Writer

/-! ## Unkeyed writes -/

/-- A `put` or a `put_keyed` call. -/
inductive Putter
  /-- A `put` reading its source, whose digest it does not know yet. -/
  | spooling (got : Bytes)
  /-- A `put` whose source failed. -/
  | failed (e : BackendError)
  | keyed (w : Writer)
deriving DecidableEq

namespace Putter

variable (H : HashFn)

/-- At the end of the source a `put` knows its digest: `write_only` now runs `put_keyed` over the
buffered body, `lru` has the body in the backend's temporary file, ready to commit. -/
def step (s : CasStore) : Putter → WriteEvent → Option (CasStore × Putter)
  | .spooling got, .read chunk =>
    if chunk = [] then
      match s.mode with
      | .writeOnly _ => some (s, .keyed ⟨Digest.compute H got, .body got, .entered⟩)
      | .lru .. => some (s, .keyed ⟨Digest.compute H got, .stream, .ungated false got true⟩)
    else some (s, .spooling (got ++ chunk))
  | .spooling _, .fail message => some (s, .failed (.internal message))
  | .keyed w, ev => (w.step H s ev).map fun r => (r.1, .keyed r.2)
  | _, _ => none

/-- The digest being written, once it is known. -/
def digest? : Putter → Option Digest
  | .keyed w => some w.expected
  | _ => none

/-- A quantity of a phase, zero for a write that is not keyed yet. -/
def meter (f : Phase → Nat) : Putter → Nat
  | .keyed w => f w.phase
  | _ => 0

/-- The write of `d` that has published and has not returned. -/
def landedOn (d : Digest) : Putter → Bool
  | .keyed w => w.expected = d && w.phase.landed
  | _ => false

/-- The write of `d` between `after_write` and its return. -/
def guarding (d : Digest) : Putter → Bool
  | .keyed ⟨d', _, .guarded⟩ => d' = d
  | _ => false

/-- The digest whose write has returned `Ok`. -/
def acknowledged : Putter → Option Digest
  | .keyed ⟨d, _, .returned (.ok _)⟩ => some d
  | _ => none

/-- One for a registered re-put of `d`. -/
def registered (d : Digest) : Putter → Nat
  | .keyed w => if w.expected = d ∧ w.phase.registered = true then 1 else 0
  | _ => 0

@[simp] theorem meter_keyed (f : Phase → Nat) (w : Writer) : meter f (.keyed w) = f w.phase := rfl

@[simp] theorem meter_spooling (f : Phase → Nat) (got : Bytes) : meter f (.spooling got) = 0 := rfl

@[simp] theorem meter_failed (f : Phase → Nat) (e : BackendError) : meter f (.failed e) = 0 := rfl

variable {H}

/-- A step of a call is a step of its keyed write, or touches nothing shared. -/
theorem step_cases {s s' : CasStore} {p p' : Putter} {ev : WriteEvent}
    (h : step H s p ev = some (s', p')) :
    (∃ w w', p = .keyed w ∧ p' = .keyed w' ∧ Writer.Moves H s w ev s' w') ∨
    s' = s ∧ ∃ got, p = .spooling got ∧
      ((∃ got', p' = .spooling got') ∨ (∃ e, p' = .failed e) ∨
        (∃ cap, s.mode = .writeOnly cap ∧
          p' = .keyed ⟨Digest.compute H got, .body got, .entered⟩) ∨
        (∃ budget grace, s.mode = .lru budget grace ∧
          p' = .keyed ⟨Digest.compute H got, .stream, .ungated false got true⟩)) := by
  cases p with
  | spooling got =>
    right
    cases ev <;> simp only [step, reduceCtorEq] at h
    case read chunk =>
      split at h
      · split at h
        · next hm => cases h; exact ⟨rfl, got, rfl, .inr (.inr (.inl ⟨_, hm, rfl⟩))⟩
        · next hm => cases h; exact ⟨rfl, got, rfl, .inr (.inr (.inr ⟨_, _, hm, rfl⟩))⟩
      · cases h; exact ⟨rfl, got, rfl, .inl ⟨_, rfl⟩⟩
    case fail message => cases h; exact ⟨rfl, got, rfl, .inr (.inl ⟨_, rfl⟩)⟩
  | failed e => simp [step] at h
  | keyed w =>
    left
    simp only [step, Option.map_eq_some_iff, Prod.mk.injEq] at h
    obtain ⟨⟨s₁, w'⟩, hw, rfl, rfl⟩ := h
    exact ⟨w, w', rfl, rfl, Writer.moves_of_step hw⟩

end Putter

end NessieStore
