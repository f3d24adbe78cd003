import NessieStore.Store.System

/-!
# A write that fails

What a `put` or a `put_keyed` takes while it runs (bytes in `pending`, an entry among the running
re-puts), its guards give back on every way out: an error of the source or of the backend, bytes of
another digest, a refusal by the gate, and a panic of the source, which the drop guards see as well
(`Putter.unwind`). So a write that does not end in `Ok` leaves the store as it found it, down to the
last field (`failed_write_leaves_no_trace`).

The backend is one that leaves its blobs alone when it fails, as both of them do up to their rename.
A count of running re-puts is never zero, here a premise, and a fact of every state that the store
gets into (`counts_positive`).
-/

set_option autoImplicit false

namespace NessieStore

open Lib

namespace CasStore

/-- The counts of running re-puts: an entry goes with its last re-put. -/
def CountsPositive (s : CasStore) : Prop := ∀ d, s.state.fastInflight.lookup d ≠ some 0

/-- A re-put that is over leaves the registrations as it found them. -/
theorem deregister_register {s : CasStore} (h : s.CountsPositive) (d : Digest) :
    (s.register d).deregister d = s := by
  have hlookup : (s.register d).state.fastInflight.lookup d =
      some ((s.state.fastInflight.lookup d).getD 0 + 1) := Finmap.lookup_insert _
  unfold deregister
  rw [hlookup]
  dsimp only
  rw [Nat.add_sub_cancel]
  cases hold : s.state.fastInflight.lookup d with
  | none =>
    rw [Option.getD_none, if_pos rfl]
    have herase : (s.register d).state.fastInflight.erase d = s.state.fastInflight := by
      refine Finmap.ext_lookup fun d' => ?_
      rw [register, Map.lookup_erase_eq, Map.lookup_insert_eq]
      by_cases hd : d' = d
      · rw [if_pos hd, hd, hold]
      · rw [if_neg hd, if_neg hd]
    rw [herase]
    rfl
  | some n =>
    have hn : n ≠ 0 := fun h0 => h d (h0 ▸ hold)
    rw [Option.getD_some, if_neg hn]
    have hinsert : (s.register d).state.fastInflight.insert d n = s.state.fastInflight := by
      refine Finmap.ext_lookup fun d' => ?_
      rw [register, Map.lookup_insert_eq, Map.lookup_insert_eq]
      by_cases hd : d' = d
      · rw [if_pos hd, hd, hold]
      · rw [if_neg hd, if_neg hd]
    rw [hinsert]
    rfl

/-- The store with what a write of `d` in this phase has taken from it. -/
def taken (s : CasStore) (d : Digest) (ph : Phase) : CasStore :=
  { (if ph.registered then s.register d else s) with pending := s.pending + ph.reserved }

end CasStore

/-! ## Ways out -/

namespace Putter

/-- How a call returned. -/
def outcome : Putter → Option (Except BackendError Unit)
  | .failed e => some (.error e)
  | .keyed ⟨_, _, .returned out⟩ => some out
  | _ => none

/-- The source panics in a read: the call is over, and its guards are dropped on the way out. -/
def unwind (s : CasStore) : Putter → Option CasStore
  | .spooling _ => some s
  | .keyed ⟨d, _, .ungated registered _ false⟩ =>
    some (if registered then s.deregister d else s)
  | .keyed ⟨_, _, .gated _ mine false⟩ => some { s with pending := s.pending - mine }
  | _ => none

end Putter

/-- The write has published, or has returned after it did. -/
def Phase.wentThrough (ph : Phase) : Prop := ph.landed = true ∨ ph = .returned (.ok ())

/-- What a write that has not gone through makes of the store `s` it started from. -/
def Traceless (s : CasStore) : CasStore × Putter → Prop
  | (t, .keyed w) => w.phase.wentThrough ∨ t = s.taken w.expected w.phase
  | (t, _) => t = s

namespace Traceless

variable {H : HashFn} {s t t' : CasStore}

/-- In a phase before the publish, the store is known. -/
theorem eq_taken {w : Writer} (h : Traceless s (t, .keyed w)) (hl : w.phase.landed = false)
    (hr : w.phase ≠ .returned (.ok ())) : t = s.taken w.expected w.phase := by
  rcases h with (hland | hret) | heq
  · rw [hl] at hland
    cases hland
  · exact absurd hret hr
  · exact heq

/-- A write that gives up its registration, or had none, leaves the store it started from. -/
theorem drop (hcounts : s.CountsPositive) (d : Digest) (ph : Phase) (hph : ph.reserved = 0) :
    (if ph.registered then (s.taken d ph).deregister d else s.taken d ph) = s := by
  unfold CasStore.taken
  rw [hph]
  by_cases hreg : ph.registered = true
  · rw [if_pos hreg, if_pos hreg]
    exact CasStore.deregister_register hcounts d
  · rw [if_neg hreg, if_neg hreg]
    rfl

/-- The step lemma: what a move takes, the phase it leads to says. -/
theorem keyed (hcounts : s.CountsPositive) {w w' : Writer} {ev : WriteEvent}
    (h : Traceless s (t, .keyed w)) (hmove : Writer.Moves H t w ev t' w') :
    Traceless s (t', .keyed w') := by
  cases hmove with
  | direct hm => exact .inr (h.eq_taken rfl (by rintro ⟨⟩))
  | fast hm held =>
    cases h.eq_taken rfl (by rintro ⟨⟩)
    exact .inr rfl
  | gate hm hacc hnew => exact .inr (h.eq_taken rfl (by rintro ⟨⟩))
  | read hr => exact .inr (h.eq_taken rfl (by rintro ⟨⟩))
  | add hr =>
    cases h.eq_taken rfl (by rintro ⟨⟩)
    refine .inr ?_
    simp only [CasStore.taken, Phase.registered, Phase.reserved, Nat.add_assoc]
    rfl
  | failUngated => exact .inr (h.eq_taken rfl (by rintro ⟨⟩))
  | failGated => exact .inr (h.eq_taken rfl (by rintro ⟨⟩))
  | load => exact .inr (h.eq_taken rfl (by rintro ⟨⟩))
  | blame hm => exact .inr (h.eq_taken rfl (by rintro ⟨⟩))
  | accept hm hfits => exact .inr (h.eq_taken rfl (by rintro ⟨⟩))
  | trip hm hfits =>
    cases h.eq_taken rfl (by rintro ⟨⟩)
    refine .inr ?_
    simp only [CasStore.taken, Phase.registered, Phase.reserved, ← Nat.add_assoc,
      Nat.add_sub_cancel]
    rfl
  | landUngated hv hlock => exact .inl (.inl rfl)
  | rejectUngated hv => exact .inr (h.eq_taken rfl (by rintro ⟨⟩))
  | landGated hv hlock => exact .inl (.inl rfl)
  | rejectGated hv => exact .inr (h.eq_taken rfl (by rintro ⟨⟩))
  | account => exact .inl (.inl rfl)
  | dropRefused =>
    cases h.eq_taken rfl (by rintro ⟨⟩)
    refine .inr ?_
    simp only [CasStore.taken, Phase.registered, Phase.reserved, Nat.add_sub_cancel]
    rfl
  | dropCharged => exact .inl (.inl rfl)
  | doneOk => exact .inl (.inl rfl)
  | @doneError d src reg e =>
    cases h.eq_taken rfl (by rintro ⟨⟩)
    exact .inr (drop hcounts d (.ungatedDone reg (.error e)) rfl)
  | afterWrite => exact .inl (.inl rfl)
  | ret => exact .inl (.inr rfl)

theorem step (hcounts : s.CountsPositive) {p p' : Putter} {ev : WriteEvent}
    (h : Traceless s (t, p)) (hstep : Putter.step H t p ev = some (t', p')) :
    Traceless s (t', p') := by
  rcases Putter.step_cases hstep with ⟨w, w', rfl, rfl, hmove⟩ | ⟨rfl, got, rfl, hspool⟩
  · exact h.keyed hcounts hmove
  · rcases hspool with ⟨got', rfl⟩ | ⟨e, rfl⟩ | ⟨cap, hm, rfl⟩ | ⟨budget, grace, hm, rfl⟩
    · exact h
    · exact h
    · exact .inr h
    · exact .inr h

/-- A call that returned an error left nothing behind. -/
theorem of_error {p : Putter} {e : BackendError} (h : Traceless s (t, p))
    (hout : p.outcome = some (.error e)) : t = s := by
  cases p with
  | spooling got => cases hout
  | failed err => exact h
  | keyed w =>
    obtain ⟨d, source, ph⟩ := w
    cases ph with
    | returned out =>
      cases hout
      exact h.eq_taken rfl (by rintro ⟨⟩)
    | _ => cases hout

/-- Nor did one whose source panicked. -/
theorem of_unwind (hcounts : s.CountsPositive) {p : Putter} {u : CasStore}
    (h : Traceless s (t, p)) (hu : p.unwind t = some u) : u = s := by
  cases p with
  | spooling got =>
    cases hu
    exact h
  | failed err => cases hu
  | keyed w =>
    obtain ⟨d, source, ph⟩ := w
    unfold Putter.unwind at hu
    split at hu
    · next heq => cases heq
    · next d' source' registered got heq =>
      cases heq
      cases hu
      cases h.eq_taken rfl (by rintro ⟨⟩)
      exact drop hcounts d (.ungated registered got false) rfl
    · next d' source' got mine heq =>
      cases heq
      cases hu
      cases h.eq_taken rfl (by rintro ⟨⟩)
      simp only [CasStore.taken, Phase.registered, Phase.reserved, Nat.add_sub_cancel]
      rfl
    · cases hu

end Traceless

/-! ## The premise -/

namespace CasStore

theorem CountsPositive.register {s : CasStore} (h : s.CountsPositive) (d : Digest) :
    (s.register d).CountsPositive := by
  intro d'
  rw [CasStore.register, Map.lookup_insert_eq]
  by_cases hd : d' = d
  · rw [if_pos hd]
    simp
  · rw [if_neg hd]
    exact h d'

theorem CountsPositive.deregister {s : CasStore} (h : s.CountsPositive) (d : Digest) :
    (s.deregister d).CountsPositive := by
  unfold CasStore.deregister
  split
  · exact h
  · next n hn =>
    split
    · intro d'
      rw [Map.lookup_erase_eq]
      by_cases hd : d' = d
      · rw [if_pos hd]
        simp
      · rw [if_neg hd]
        exact h d'
    · next hpos =>
      intro d'
      rw [Map.lookup_insert_eq]
      by_cases hd : d' = d
      · rw [if_pos hd]
        simpa using hpos
      · rw [if_neg hd]
        exact h d'

/-- A move leaves the counts alone, or registers a re-put, or drops one. -/
theorem CountsPositive.move {H : HashFn} {s s' : CasStore} {w w' : Writer} {ev : WriteEvent}
    (h : s.CountsPositive) (hmove : Writer.Moves H s w ev s' w') : s'.CountsPositive := by
  cases hmove with
  | @fast d _ _ _ hm held => exact h.register d
  | @account d src mine =>
    unfold CountsPositive account
    split
    · exact h
    · split <;> exact h
  | @doneOk d src reg =>
    cases reg with
    | false => exact h
    | true => exact h.deregister d
  | @doneError d src reg e =>
    cases reg with
    | false => exact h
    | true => exact h.deregister d
  | _ => exact h

theorem CountsPositive.quarantine {s : CasStore} (h : s.CountsPositive) (d : Digest)
    (stat : Option String) : (s.quarantine d stat).2.CountsPositive := by
  rw [CountsPositive, (s.quarantine_inner d stat).2.2]
  exact h

end CasStore

theorem counts_positive_step {H : HashFn} {x y : Sys} {a : Act} (h : x.store.CountsPositive)
    (hstep : Sys.step H x a = some y) : y.store.CountsPositive := by
  cases a with
  | write i ev =>
    obtain ⟨p, s', p', hi, hp, rfl⟩ := Sys.step_write hstep
    rcases Putter.step_cases hp with ⟨w, w', rfl, rfl, hmove⟩ | ⟨rfl, -⟩
    · exact h.move hmove
    · exact h
  | evictStep i ev =>
    obtain ⟨e, s', e', hi, hmove, rfl⟩ := Sys.step_evict hstep
    cases hmove <;> exact h
  | scrubStep i ev =>
    obtain ⟨c, s', c', hi, hmove, rfl⟩ := Sys.step_scrub hstep
    cases hmove with
    | quarantine hm => exact h.quarantine _ _
    | _ => exact h
  | quarantine d stat =>
    cases hstep
    exact h.quarantine d stat
  | get d =>
    rw [Sys.step_get hstep]
    exact h
  | corrupt d bytes =>
    obtain ⟨-, -, -, rfl⟩ := Sys.step_corrupt hstep
    exact h
  | _ =>
    cases hstep
    exact h

/-- No state of a store, whatever runs against it, has a count of zero. -/
theorem counts_positive {H : HashFn} {inner : LocalCas} {mode : StorageMode} {now : Nat}
    {blobs : List LocalBlob} {quarantine : List QuarantinedBlob} {acts : List Act} {x : Sys}
    (hrun : Run (Sys.step H) (fun _ _ => True) (.idle (.new inner mode now blobs quarantine)) acts x) :
    x.store.CountsPositive :=
  hrun.keeps (I := fun x => x.store.CountsPositive) (fun _ h hstep => counts_positive_step h hstep)
    fun d => by simp [Sys.idle, CasStore.new]

/-- `fast_inflight` shows exactly the running re-puts: in every state of a store, whatever runs
against it, a digest has no entry just when no registered re-put of it is running. -/
theorem fast_inflight_shows_reputs {H : HashFn} {inner : LocalCas} {mode : StorageMode} {now : Nat}
    {blobs : List LocalBlob} {quarantine : List QuarantinedBlob} {acts : List Act} {x : Sys}
    (hrun : Run (Sys.step H) (fun _ _ => True) (.idle (.new inner mode now blobs quarantine)) acts x)
    (d : Digest) :
    x.store.state.fastInflight.lookup d = none ↔
      ∀ w, .keyed w ∈ x.puts → w.expected = d → w.phase.registered = false := by
  have hreg : x.Registered :=
    hrun.keeps (fun _ h hstep => h.step hstep) (Sys.registered_idle rfl)
  constructor
  · rintro hnone w hw rfl
    by_contra hrunning
    exact hreg.defers hw (Bool.eq_true_of_not_eq_false hrunning) hnone
  · intro hquiet
    have hzero : weigh (Putter.registered d) x.puts = 0 := by
      refine List.sum_eq_zero fun n hn => ?_
      obtain ⟨p, hp, rfl⟩ := List.mem_map.mp hn
      cases p with
      | keyed w =>
        refine if_neg ?_
        rintro ⟨hd, hrunning⟩
        rw [hquiet w hp hd] at hrunning
        cases hrunning
      | _ => rfl
    have hcount := hreg d
    have hpositive := counts_positive hrun d
    rw [hzero, CasStore.fast] at hcount
    cases hl : x.store.state.fastInflight.lookup d with
    | none => rfl
    | some n =>
      rw [hl] at hcount hpositive
      exact absurd (congrArg some hcount) hpositive

/-- A blob that is put once more while it is there has an entry until its re-put is done. -/
theorem fast_inflight_shows_reputs_again :
    ∃ x y, run (Sys.step .short) (fun _ _ => True)
        (.idle (.new ⟨.disk, .insert (.compute .short [1]) [1] ∅, ∅, false⟩ (.writeOnly 10) 0
          [⟨.compute .short [1], 1⟩] []))
        [.putKeyed (.compute .short [1]), .write 0 (.decide false)] = some x ∧
      x.store.state.fastInflight.lookup (.compute .short [1]) = some 1 ∧
      Run (Sys.step .short) (fun _ _ => True) x
        [.write 0 (.read [1]), .write 0 (.read []), .write 0 .publish, .write 0 .release] y ∧
      y.store.state.fastInflight.lookup (.compute .short [1]) = none := by
  have hbefore : ∃ x, run (Sys.step .short) (fun _ _ => True)
        (.idle (.new ⟨.disk, .insert (.compute .short [1]) [1] ∅, ∅, false⟩ (.writeOnly 10) 0
          [⟨.compute .short [1], 1⟩] []))
        [.putKeyed (.compute .short [1]), .write 0 (.decide false)] = some x ∧
      x.store.state.fastInflight.lookup (.compute .short [1]) = some 1 ∧
      ((run (Sys.step .short) (fun _ _ => True) x [.write 0 (.read [1]), .write 0 (.read []),
        .write 0 .publish, .write 0 .release]).any fun y => y.puts.all fun p =>
          p = .keyed ⟨.compute .short [1], .stream, .stored⟩) = true := run_exists (by decide +kernel)
  obtain ⟨x, hx, hone, hrest⟩ := hbefore
  obtain ⟨y, hy, hstored⟩ := (Option.any_eq_true _ _).mp hrest
  refine ⟨x, y, hx, hone, run_sound hy, ?_⟩
  refine (fast_inflight_shows_reputs ((run_sound hx).append (run_sound hy)) _).mpr fun w hw _ => ?_
  cases of_decide_eq_true (List.all_eq_true.mp hstored _ hw)
  rfl

/-! ## No trace -/

/-- A `put` or a `put_keyed` that ends without `Ok`, be it by an error or by a panic of its source,
leaves every field of the store as it was. -/
theorem failed_write_leaves_no_trace {H : HashFn} {s : CasStore} (hcounts : s.CountsPositive)
    {p₀ : Putter} (hcall : p₀ = .spooling [] ∨ ∃ d, p₀ = .keyed ⟨d, .stream, .entered⟩)
    {evs : List WriteEvent} {t : CasStore} {p : Putter}
    (hrun : Run (fun x ev => Putter.step H x.1 x.2 ev) (fun _ _ => True) (s, p₀) evs (t, p)) :
    (∀ e, p.outcome = some (.error e) → t = s) ∧ ∀ u, p.unwind t = some u → u = s := by
  have hstart : Traceless s (s, p₀) := by
    rcases hcall with rfl | ⟨d, rfl⟩
    · exact rfl
    · exact .inr rfl
  have hend : Traceless s (t, p) :=
    hrun.keeps (I := Traceless s) (fun _ h hstep => h.step hcounts hstep) hstart
  exact ⟨fun e hout => hend.of_error hout, fun u hu => hend.of_unwind hcounts hu⟩

/-- A store of four bytes, with a blob of two. -/
def twoOfFour : CasStore :=
  .new ⟨.disk, Finmap.singleton (.compute .short [1, 2]) [1, 2], ∅, false⟩ (.writeOnly 4) 0
    [⟨.compute .short [1, 2], 2⟩] []

/-- The gate takes a first chunk and refuses the second. -/
theorem failed_write_leaves_no_trace_refused :
    ∃ t p e, Run (fun x ev => Putter.step .short x.1 x.2 ev) (fun _ _ => True)
        (twoOfFour, .keyed ⟨.compute .short [3, 4, 5], .stream, .entered⟩)
        [.decide false, .read [3, 4], .load, .settle, .read [5], .load, .settle, .load, .release]
        (t, p) ∧
      p.outcome = some (.error e) ∧ t = twoOfFour := by
  obtain ⟨⟨t, p⟩, hrun, hout⟩ :
      ∃ x, run (fun x ev => Putter.step .short x.1 x.2 ev) (fun _ _ => True)
        (twoOfFour, .keyed ⟨.compute .short [3, 4, 5], .stream, .entered⟩)
        [.decide false, .read [3, 4], .load, .settle, .read [5], .load, .settle, .load, .release] =
          some x ∧ x.2.outcome = some (.error (.capacityExceeded 2 2 4)) :=
    run_exists (by decide +kernel)
  have hrun := run_sound hrun
  have hcounts : twoOfFour.CountsPositive := fun d => by simp [twoOfFour, CasStore.new]
  exact ⟨t, p, _, hrun, hout,
    (failed_write_leaves_no_trace hcounts (.inr ⟨_, rfl⟩) hrun).1 _ hout⟩

end NessieStore
