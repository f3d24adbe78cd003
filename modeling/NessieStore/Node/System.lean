import NessieStore.Node.Pin
import NessieStore.Store.Intact

/-!
# One node and everything that runs against it

A `NodeSys` is a node's store with the calls that run against it (`Sys`), the registry and the ref
file, the calls that change the pins, and the pin lock. A pin call takes the lock at its first step
and gives it back at its end; so does an eviction pass, whose first step also reads the roots. The
writes, the reads, the releases and the scrubs go on beside them: a scrub of `lru` mode takes the
pin lock for its second look, which only makes fewer interleavings than there are here.
-/

set_option autoImplicit false

namespace NessieStore

open Lib

/-- Who has the pin lock. -/
inductive LockOwner
  | call (i : Nat)
  | pass (i : Nat)
deriving DecidableEq

structure NodeSys where
  sys : Sys
  roots : Refs
  refs : Option String
  ref : Option (List Char)
  unsynced : Bool
  calls : List PinCall
  lock : Option LockOwner

inductive NodeAct
  /-- A write, a read, a scrub or a release, as in `Sys`. -/
  | store (a : Act)
  /-- `pin`, `unpin` or `put_and_pin` is called. -/
  | change (op : PinOp)
  | call (i : Nat) (ev : PinEvent)
  /-- `maintain_once` is called; its scrubs are steps of their own. -/
  | maintain
  | pass (i : Nat) (ev : EvictEvent)

/-- Eviction passes run under the pin lock. -/
def Act.evicts : Act → Bool
  | .evict | .evictStep _ _ => true
  | _ => false

/-- The roots that the step reads. -/
def EvictEvent.pinned : EvictEvent → Option (Finset Digest)
  | .roots pinned => some pinned
  | _ => none

/-- The pass has the pin lock. -/
def Evictor.holds : Evictor → Bool
  | .start | .done _ => false
  | _ => true

/-- A pin call keeps the live copies sound. -/
theorem PinCall.Moves.sound {H : HashFn} {n n' : Node} {c c' : PinCall} {ev : PinEvent}
    (hmove : PinCall.Moves H n c ev n' c') (h : n.store.inner.Sound H) : n'.store.inner.Sound H := by
  rcases hmove.store_cases with heq | ⟨w, w', ev', -, -, hw⟩
  · rw [heq]
    exact h
  · exact hw.sound h

theorem Sys.reclaiming_eq_none {x : Sys} {a : Act} (ha : a.evicts = false) :
    x.reclaiming a = none := by
  cases a <;> first | rfl | cases ha

theorem Sys.step_evicts {H : HashFn} {x y : Sys} {a : Act} (ha : a.evicts = false)
    (hs : Sys.step H x a = some y) : y.evicts = x.evicts := by
  cases a with
  | write i ev =>
    obtain ⟨p, s', p', -, -, rfl⟩ := step_write hs
    rfl
  | scrubStep i ev =>
    obtain ⟨c, s', c', -, -, rfl⟩ := step_scrub hs
    rfl
  | get d => rw [step_get hs]
  | corrupt d bytes =>
    obtain ⟨-, -, -, rfl⟩ := step_corrupt hs
    rfl
  | evict => cases ha
  | evictStep i ev => cases ha
  | _ => cases hs; rfl

namespace NodeSys

/-- A node with nothing running. -/
def idle (n : Node) : NodeSys := ⟨.idle n.store, n.roots, n.refs, n.ref, n.unsynced, [], none⟩

/-- The node as a pin call sees it. -/
def node (x : NodeSys) : Node := ⟨x.sys.store, x.roots, x.refs, x.ref, x.unsynced⟩

variable (H : HashFn)

def step (x : NodeSys) : NodeAct → Option NodeSys
  | .store a =>
    if a.evicts then none else (Sys.step H x.sys a).map fun sys => { x with sys }
  | .change op => some { x with calls := x.calls ++ [⟨op, .waiting⟩] }
  | .call i ev =>
    match x.calls[i]? with
    | none => none
    | some c =>
      if c.phase = .waiting ∧ x.lock ≠ none then none
      else (c.step H x.node ev).map fun r =>
        { sys := { x.sys with store := r.1.store }
          roots := r.1.roots
          refs := r.1.refs
          ref := r.1.ref
          unsynced := r.1.unsynced
          calls := x.calls.set i r.2
          lock := if r.2.phase.holds then some (.call i) else none }
  | .maintain => (Sys.step H x.sys .evict).map fun sys => { x with sys }
  | .pass i ev =>
    match x.sys.evicts[i]? with
    | none => none
    | some e =>
      if e.holds = false ∧ x.lock ≠ none then none
      else if ∀ pinned ∈ ev.pinned, pinned = x.roots.pinned then
        (Sys.step H x.sys (.evictStep i ev)).map fun sys =>
          { x with
            sys
            lock := if (sys.evicts[i]?.any Evictor.holds) then some (.pass i) else none }
      else none

variable {H}

/-! ## One step, by who moved -/

theorem step_store {x y : NodeSys} {a : Act} (h : step H x (.store a) = some y) :
    a.evicts = false ∧ ∃ sys, Sys.step H x.sys a = some sys ∧ y = { x with sys } := by
  simp only [step] at h
  split at h
  · cases h
  · next ha =>
    obtain ⟨sys, hsys, rfl⟩ := Option.map_eq_some_iff.mp h
    exact ⟨Bool.eq_false_iff.mpr ha, sys, hsys, rfl⟩

/-- A pin call moves: it has the lock from its first step to its last. -/
theorem step_call {x y : NodeSys} {i : Nat} {ev : PinEvent} (h : step H x (.call i ev) = some y) :
    ∃ c c' n', x.calls[i]? = some c ∧ (c.phase = .waiting → x.lock = none) ∧
      PinCall.Moves H x.node c ev n' c' ∧
      y = { sys := { x.sys with store := n'.store }
            roots := n'.roots
            refs := n'.refs
            ref := n'.ref
            unsynced := n'.unsynced
            calls := x.calls.set i c'
            lock := if c'.phase.holds then some (.call i) else none } := by
  simp only [step] at h
  split at h
  · cases h
  · next c hi =>
    split at h
    · cases h
    · next hlock =>
      obtain ⟨⟨n', c'⟩, hstep, rfl⟩ := Option.map_eq_some_iff.mp h
      refine ⟨c, c', n', hi, fun hw => ?_, PinCall.moves_of_step hstep, rfl⟩
      by_contra hne
      exact hlock ⟨hw, hne⟩

/-- An eviction pass moves: it has the lock from its first step to its last, and it reads the roots
that are registered. -/
theorem step_pass {x y : NodeSys} {i : Nat} {ev : EvictEvent} (h : step H x (.pass i ev) = some y) :
    ∃ e e' s', x.sys.evicts[i]? = some e ∧ (e.holds = false → x.lock = none) ∧
      (∀ pinned ∈ ev.pinned, pinned = x.roots.pinned) ∧
      Evictor.Moves x.sys.store e ev s' e' ∧
      Sys.step H x.sys (.evictStep i ev) =
        some { x.sys with store := s', evicts := x.sys.evicts.set i e' } ∧
      y = { x with
            sys := { x.sys with store := s', evicts := x.sys.evicts.set i e' }
            lock := if e'.holds then some (.pass i) else none } := by
  simp only [step] at h
  split at h
  · cases h
  · next e hi =>
    split at h
    · cases h
    · next hlock =>
      split at h
      · next hroots =>
        obtain ⟨sys, hsys, rfl⟩ := Option.map_eq_some_iff.mp h
        obtain ⟨e₀, s', e', hi₀, hmove, rfl⟩ := Sys.step_evict hsys
        rw [hi] at hi₀
        cases hi₀
        have hset : (x.sys.evicts.set i e')[i]? = some e' := by
          obtain ⟨hlt, -⟩ := List.getElem?_eq_some_iff.mp hi
          rw [List.getElem?_set_self hlt]
        refine ⟨e, e', s', hi, fun hw => ?_, hroots, hmove, hsys, ?_⟩
        · by_contra hne
          exact hlock ⟨hw, hne⟩
        · simp only [hset, Option.any_some]
      · cases h

end NodeSys

end NessieStore
