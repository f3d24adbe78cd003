import NessieStore.Lib.Run
import NessieStore.Store.Write

/-!
# A write on its own

`put_keyed` when no other call runs in between: the keyed write of `Store.Write`, driven from entry to
return by a list of events (how the body is cut into chunks, which step fails, the clock). What it
does to the store depends on none of these but the failures: an error leaves blobs and books alone,
and `Ok` lands the body, charged when it went through the gate (`putKeyed_spec`).
-/

set_option autoImplicit false

namespace NessieStore

open Lib

/-! ## Reading a body from memory -/

/-- The bytes read and those still to come make up the body, none of which is left at its end. -/
def Streams (src : Bytes) (source : Source) (got : Bytes) (eof : Bool) : Prop :=
  ∃ rest, source = .body rest ∧ got ++ rest = src ∧ (eof = true → rest = [])

/-- A read of a buffered body moves a chunk from what is to come to what is read. -/
theorem Streams.read {src got chunk : Bytes} {source source' : Source} {eof : Bool}
    (h : Streams src source got eof) (hr : source.read chunk = some source') :
    Streams src source' (got ++ chunk) chunk.isEmpty := by
  obtain ⟨rest, rfl, hsrc, -⟩ := h
  simp only [Source.read] at hr
  split at hr
  · next hc =>
    cases hr
    obtain ⟨tail, htail⟩ := List.isPrefixOf_iff_prefix.mp hc.1
    refine ⟨tail, by rw [← htail, List.drop_left], ?_, ?_⟩
    · rw [List.append_assoc, htail, hsrc]
    · intro hempty
      have hnil := List.isEmpty_iff.mp hempty
      have hrest := hc.2 hnil
      rw [hnil, hrest] at htail
      exact htail
  · cases hr

theorem Streams.eq_of_eof {src got : Bytes} {source : Source} (h : Streams src source got true) :
    got = src := by
  obtain ⟨rest, -, hsrc, hnil⟩ := h
  rw [← hsrc, hnil rfl, List.append_nil]

/-- A write of the body `src`: what it has read is a beginning of `src`, and all of it at the end. -/
def Writer.Streaming (src : Bytes) (w : Writer) : Prop :=
  match w.phase with
  | .entered => w.source = .body src
  | .ungated _ got eof => Streams src w.source got eof
  | .gated got _ eof => Streams src w.source got eof
  | .added got _ chunk _ => Streams src w.source (got ++ chunk) chunk.isEmpty
  | .loaded got _ chunk _ _ => Streams src w.source (got ++ chunk) chunk.isEmpty
  | _ => True

theorem Writer.Streaming.step {H : HashFn} {s s' : CasStore} {w w' : Writer} {ev : WriteEvent}
    {src : Bytes} (h : w.Streaming src) (hmove : Writer.Moves H s w ev s' w') :
    w'.Streaming src := by
  cases hmove with
  | direct hm => exact ⟨src, h, rfl, by simp⟩
  | fast hm held => exact ⟨src, h, rfl, by simp⟩
  | gate hm hacc hnew => exact ⟨src, h, rfl, by simp⟩
  | read hr => exact Streams.read h hr
  | add hr => exact Streams.read h hr
  | load => exact h
  | accept hm hfits => exact h
  | _ => trivial

/-- What such a write publishes is the body. -/
theorem Writer.Streaming.got_eq {H : HashFn} {s s' : CasStore} {w w' : Writer} {src : Bytes}
    (h : w.Streaming src) (hmove : Writer.Moves H s w .publish s' w') : w.phase.got = src := by
  cases hmove with
  | landUngated => exact Streams.eq_of_eof h
  | rejectUngated => exact Streams.eq_of_eof h
  | landGated => exact Streams.eq_of_eof h
  | rejectGated => exact Streams.eq_of_eof h

/-! ## The whole call -/

namespace CasStore

variable (H : HashFn)

/-- Run `put_keyed` of `src` under `d` alone; `none` when the events do not bring it to its end. -/
def putKeyed (s : CasStore) (d : Digest) (src : Bytes) (evs : List WriteEvent) :
    Option (Except BackendError Unit × CasStore) :=
  match run (fun x ev => Writer.step H x.1 x.2 ev) (fun _ _ => True)
      (s, ⟨d, .body src, .entered⟩) evs with
  | some (t, ⟨_, _, .returned out⟩) => some (out, t)
  | _ => none

/-- The books and blobs after an `Ok`; the body hashes to the digest. -/
inductive Wrote (s : CasStore) (d : Digest) (src : Bytes) (t : CasStore) : Prop
  /-- `lru`: the body is on disk. -/
  | cached {budget grace : Nat} (hv : d.verify H src = true) (hm : s.mode = .lru budget grace)
      (h : SameBooks (s.land d src) t)
  /-- `write_only`, a re-put: the body is on disk and nothing is charged. -/
  | again {capacity : Nat} (hv : d.verify H src = true) (hm : s.mode = .writeOnly capacity)
      (held : (s.state.accounted.lookup d).isSome = true ∨ s.inner.has d = true)
      (h : SameBooks (s.land d src) t)
  /-- `write_only`, through the gate: the body fits, is on disk and is charged. -/
  | admitted {capacity : Nat} (hv : d.verify H src = true) (hm : s.mode = .writeOnly capacity)
      (hnew : s.state.accounted.lookup d = none)
      (hfits : fits capacity s.committed (s.pending + src.length) 0 = true)
      (h : SameBooks ((s.land d src).account d src.length) t)

/-- Where a write alone stands, against the store `s` it started from. -/
def Alone (s : CasStore) (d : Digest) (src : Bytes) : CasStore × Writer → Prop
  | (t, ⟨d', source, ph⟩) => d' = d ∧ match ph with
    | .entered => t = s ∧ source = .body src
    | .ungated reg got eof =>
      (SameBooks s t ∧ t.pending = s.pending ∧ Streams src source got eof) ∧
        ((∃ budget grace, s.mode = .lru budget grace) ∨
          reg = true ∧ (∃ capacity, s.mode = .writeOnly capacity) ∧
            ((s.state.accounted.lookup d).isSome = true ∨ s.inner.has d = true))
    | .gated got mine eof =>
      (SameBooks s t ∧ t.pending = s.pending + mine ∧ got.length = mine ∧
          Streams src source got eof) ∧
        s.state.accounted.lookup d = none ∧ ∃ capacity, s.mode = .writeOnly capacity ∧
          (eof = true → fits capacity s.committed (s.pending + mine) 0 = true)
    | .added got mine chunk before =>
      (SameBooks s t ∧ t.pending = s.pending + mine + chunk.length ∧ got.length = mine ∧
          Streams src source (got ++ chunk) chunk.isEmpty) ∧
        s.state.accounted.lookup d = none ∧ before = s.pending + mine
    | .loaded got mine chunk before seen =>
      (SameBooks s t ∧ t.pending = s.pending + mine + chunk.length ∧ got.length = mine ∧
          Streams src source (got ++ chunk) chunk.isEmpty) ∧
        s.state.accounted.lookup d = none ∧ before = s.pending + mine ∧ seen = s.committed
    | .refused mine _ => SameBooks s t ∧ t.pending = s.pending + mine
    | .published mine =>
      d.verify H src = true ∧ SameBooks (s.land d src) t ∧ t.pending = s.pending + mine ∧
        mine = src.length ∧ s.state.accounted.lookup d = none ∧ ∃ capacity, s.mode = .writeOnly capacity ∧
          fits capacity s.committed (s.pending + mine) 0 = true
    | .charged mine => Wrote H s d src t ∧ t.pending = s.pending + mine
    | .ungatedDone _ (.ok _) | .stored | .guarded | .returned (.ok _) =>
      Wrote H s d src t ∧ t.pending = s.pending
    | .ungatedDone _ (.error _) | .returned (.error _) => SameBooks s t ∧ t.pending = s.pending

end CasStore

theorem SameBooks.trans {s t u : CasStore} (h : SameBooks s t) (h' : SameBooks t u) :
    SameBooks s u :=
  ⟨h'.inner.trans h.inner, h'.mode.trans h.mode, h'.mirror.trans h.mirror,
    h'.committed.trans h.committed, h'.accounted.trans h.accounted,
    h'.quarantined.trans h.quarantined⟩

theorem SameBooks.land {s t : CasStore} (h : SameBooks s t) (d : Digest) (b : Bytes) :
    SameBooks (s.land d b) (t.land d b) :=
  ⟨by simp only [CasStore.land, h.inner], h.mode, h.mirror, h.committed, h.accounted, h.quarantined⟩

/-- `account` reads and writes the books alone. -/
theorem SameBooks.account {s t : CasStore} (h : SameBooks s t) (d : Digest) (n : Nat) :
    SameBooks (s.account d n) (t.account d n) := by
  by_cases hfree : n = 0 ∨ ∃ m, s.state.accounted.lookup d = some m
  · rw [CasStore.account_of_free hfree, CasStore.account_of_free (h.accounted ▸ hfree)]
    exact h
  · rw [not_or, not_exists] at hfree
    have hnone := Option.eq_none_iff_forall_ne_some.mpr hfree.2
    rw [CasStore.account_of_new hfree.1 hnone,
      CasStore.account_of_new hfree.1 (h.accounted ▸ hnone)]
    exact ⟨h.inner, h.mode, by rw [h.committed], by simp only [h.committed],
      by simp only [h.accounted], h.quarantined⟩

namespace CasStore

variable {H : HashFn}

theorem Wrote.trans {s t u : CasStore} {d : Digest} {src : Bytes} (h : Wrote H s d src t)
    (h' : SameBooks t u) : Wrote H s d src u := by
  cases h with
  | cached hv hm h => exact .cached hv hm (h.trans h')
  | again hv hm held h => exact .again hv hm held (h.trans h')
  | admitted hv hm hnew hfits h => exact .admitted hv hm hnew hfits (h.trans h')

/-- What an `Ok` did to the blobs, whichever way the write went. -/
theorem Wrote.landed {s t : CasStore} {d : Digest} {src : Bytes} (h : Wrote H s d src t) :
    d.verify H src = true ∧ t.mode = s.mode ∧ t.inner = s.inner.land d src := by
  cases h with
  | cached hv hm h => exact ⟨hv, h.mode, h.inner⟩
  | again hv hm held h => exact ⟨hv, h.mode, h.inner⟩
  | admitted hv hm hnew hfits h =>
    exact ⟨hv, h.mode.trans (account_mode _ _ _), h.inner.trans (account_inner _ _ _)⟩

theorem pending_deregister (s : CasStore) (d : Digest) (reg : Bool) :
    (if reg then s.deregister d else s).pending = s.pending := by
  obtain ⟨fast, h⟩ := s.deregister_eq d
  cases reg <;> simp [h]

/-- The step lemma of a write alone. -/
theorem Alone.step {s : CasStore} {d : Digest} {src : Bytes} {x y : CasStore × Writer}
    {ev : WriteEvent} (h : Alone H s d src x) (hmove : Writer.Moves H x.1 x.2 ev y.1 y.2) :
    Alone H s d src y := by
  obtain ⟨t, w⟩ := x
  obtain ⟨u, w'⟩ := y
  dsimp only at hmove
  cases hmove with
  | direct hm =>
    obtain ⟨rfl, rfl, rfl⟩ := h
    exact ⟨rfl, ⟨.rfl' t, rfl, src, rfl, rfl, by simp⟩, .inl ⟨_, _, hm⟩⟩
  | fast hm held =>
    obtain ⟨rfl, rfl, rfl⟩ := h
    exact ⟨rfl, ⟨⟨rfl, rfl, rfl, rfl, rfl, rfl⟩, rfl, src, rfl, rfl, by simp⟩,
      .inr ⟨rfl, ⟨_, hm⟩, held.imp_right And.right⟩⟩
  | gate hm hacc hnew =>
    obtain ⟨rfl, rfl, rfl⟩ := h
    exact ⟨rfl, ⟨.rfl' t, rfl, rfl, src, rfl, rfl, by simp⟩, hacc, _, hm, by simp⟩
  | read hr =>
    obtain ⟨rfl, ⟨hsame, hpend, hstream⟩, hwhy⟩ := h
    exact ⟨rfl, ⟨hsame, hpend, hstream.read hr⟩, hwhy⟩
  | add hr =>
    obtain ⟨rfl, ⟨hsame, hpend, hlen, hstream⟩, hnew, -⟩ := h
    refine ⟨rfl, ⟨hsame.trans ⟨rfl, rfl, rfl, rfl, rfl, rfl⟩, ?_, hlen, hstream.read hr⟩, hnew, hpend⟩
    rw [← hpend]
  | failUngated =>
    obtain ⟨rfl, ⟨hsame, hpend, -⟩, -⟩ := h
    exact ⟨rfl, hsame, hpend⟩
  | failGated =>
    obtain ⟨rfl, ⟨hsame, hpend, -⟩, -⟩ := h
    exact ⟨rfl, hsame, hpend⟩
  | load =>
    obtain ⟨rfl, hfacts, hnew, hbefore⟩ := h
    exact ⟨rfl, hfacts, hnew, hbefore, hfacts.1.mirror⟩
  | blame hm => exact h
  | @accept d' source got chunk mine before seen capacity hm hfits =>
    obtain ⟨rfl, ⟨hsame, hpend, hlen, hstream⟩, hnew, rfl, rfl⟩ := h
    refine ⟨rfl, ⟨hsame, by rw [hpend, Nat.add_assoc], by simp [hlen], hstream⟩, hnew, capacity,
      hsame.mode ▸ hm, ?_⟩
    intro heof
    rw [List.isEmpty_iff.mp heof] at hfits ⊢
    exact hfits
  | trip hm hfits =>
    obtain ⟨rfl, ⟨hsame, hpend, -⟩, -⟩ := h
    refine ⟨rfl, hsame.trans ⟨rfl, rfl, rfl, rfl, rfl, rfl⟩, ?_⟩
    show t.pending - _ = _
    omega
  | landUngated hv hlock =>
    obtain ⟨rfl, ⟨hsame, hpend, hstream⟩, hwhy⟩ := h
    have hsrc := hstream.eq_of_eof
    subst hsrc
    refine ⟨rfl, ?_, hpend⟩
    rcases hwhy with ⟨budget, grace, hm⟩ | ⟨-, ⟨capacity, hm⟩, held⟩
    · exact .cached hv hm (hsame.land _ _)
    · exact .again hv hm held (hsame.land _ _)
  | rejectUngated hv =>
    obtain ⟨rfl, ⟨hsame, hpend, -⟩, -⟩ := h
    exact ⟨rfl, hsame, hpend⟩
  | landGated hv hlock =>
    obtain ⟨rfl, ⟨hsame, hpend, hlen, hstream⟩, hnew, capacity, hm, hfits⟩ := h
    have hsrc := hstream.eq_of_eof
    subst hsrc
    exact ⟨rfl, hv, hsame.land _ _, hpend, hlen.symm, hnew, capacity, hm, hfits rfl⟩
  | rejectGated hv =>
    obtain ⟨rfl, ⟨hsame, hpend, -⟩, -⟩ := h
    exact ⟨rfl, hsame, hpend⟩
  | account =>
    obtain ⟨rfl, hv, hsame, hpend, rfl, hnew, capacity, hm, hfits⟩ := h
    refine ⟨rfl, .admitted hv hm hnew hfits (hsame.account _ _), ?_⟩
    rw [← hpend]
    exact account_pending _ _ _
  | dropRefused =>
    obtain ⟨rfl, hsame, hpend⟩ := h
    refine ⟨rfl, hsame.trans ⟨rfl, rfl, rfl, rfl, rfl, rfl⟩, ?_⟩
    show t.pending - _ = _
    omega
  | dropCharged =>
    obtain ⟨rfl, hwrote, hpend⟩ := h
    refine ⟨rfl, hwrote.trans ⟨rfl, rfl, rfl, rfl, rfl, rfl⟩, ?_⟩
    show t.pending - _ = _
    omega
  | doneOk =>
    obtain ⟨rfl, hwrote, hpend⟩ := h
    exact ⟨rfl, hwrote.trans (.deregister _ _ _), (pending_deregister _ _ _).trans hpend⟩
  | doneError =>
    obtain ⟨rfl, hsame, hpend⟩ := h
    exact ⟨rfl, hsame.trans (.deregister _ _ _), (pending_deregister _ _ _).trans hpend⟩
  | afterWrite =>
    obtain ⟨rfl, hwrote, hpend⟩ := h
    exact ⟨rfl, hwrote.trans ⟨rfl, rfl, rfl, rfl, rfl, rfl⟩, hpend⟩
  | ret => exact h

/-- What a `put_keyed` alone does: an error changes neither blobs nor books, `Ok` lands the body, and
`pending` is what it was. -/
theorem putKeyed_spec {s t : CasStore} {d : Digest} {src : Bytes} {evs : List WriteEvent}
    {out : Except BackendError Unit} (h : s.putKeyed H d src evs = some (out, t)) :
    t.pending = s.pending ∧ match out with
      | .ok _ => Wrote H s d src t
      | .error _ => SameBooks s t := by
  unfold putKeyed at h
  split at h
  · next t' d' source' out' hrun =>
    cases h
    have halone : Alone H s d src (t, ⟨d', source', .returned out⟩) :=
      (run_sound hrun).keeps (I := Alone H s d src)
        (fun _ hI hs => hI.step (Writer.moves_of_step hs)) ⟨rfl, rfl, rfl⟩
    cases out with
    | ok u => exact ⟨halone.2.2, halone.2.1⟩
    | error e => exact ⟨halone.2.2, halone.2.1⟩
  · cases h

end CasStore

/-! ## Schedules without failures -/

/-- A write on its own, of a body read in one chunk, through the gate. -/
def gatedWrite (body : Bytes) : List WriteEvent :=
  [.decide false, .read body, .load, .settle, .read [], .load, .settle, .publish, .account, .release,
    .afterWrite 0, .ret]

/-- The same on the fast path. -/
def fastWrite (body : Bytes) : List WriteEvent :=
  [.decide false, .read body, .read [], .publish, .release, .afterWrite 0, .ret]

end NessieStore
