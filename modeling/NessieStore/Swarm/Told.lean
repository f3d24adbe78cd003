import NessieStore.Swarm.Replicated

/-!
# Which blob a call is about

`put_keyed` and `ensure_replicated` return no digest: that their `Ok` is about the blob they were
called for is a fact about the way there, from the write of the node's store (`About`) to the end of
the push. Whoever waits for a call finds it under its number until the node is restarted
(`Continues`).
-/

set_option autoImplicit false

namespace NessieStore

open Lib

/-- The blob that the call is for, where the caller says it. -/
def ClientOp.digest? : ClientOp → Option Digest
  | .put => none
  | .putKeyed d | .ensureReplicated d => some d

/-- The call is on the way to an answer about `d`. -/
def ClientCall.About (sys : Sys) (c : ClientCall) (d : Digest) : Prop :=
  match c.phase with
  | .writing k => ∃ w, sys.puts[k]? = some (.keyed w) ∧ w.expected = d
  | .checking d' | .pushing d' _ _ | .sending d' _ _ _ | .awaiting d' _ _ _
  | .confirming d' _ _ _ | .returned (.ok d') => d' = d
  | .returned (.error _) => True

/-- The keyed writes keep their places and their digests. -/
def Sys.Carries (x y : Sys) : Prop :=
  ∀ (k : Nat) (w : Writer), x.puts[k]? = some (.keyed w) →
    ∃ w' : Writer, y.puts[k]? = some (.keyed w') ∧ w'.expected = w.expected

theorem Sys.Carries.of_puts_eq {x y : Sys} (h : y.puts = x.puts) : x.Carries y :=
  fun _ w hw => ⟨w, h ▸ hw, rfl⟩

theorem Sys.Carries.of_append {x y : Sys} {ps : List Putter} (h : y.puts = x.puts ++ ps) :
    x.Carries y :=
  fun _ w hw => ⟨w, h ▸ getElem?_append_of_some hw ps, rfl⟩

theorem Sys.carries_step {H : HashFn} {x y : Sys} {a : Act} (h : Sys.step H x a = some y) :
    x.Carries y := by
  cases a with
  | put => cases h; exact .of_append rfl
  | putKeyed d => cases h; exact .of_append rfl
  | write i ev =>
    obtain ⟨p, s', p', hi, hp, rfl⟩ := Sys.step_write h
    intro k w hw
    by_cases hk : k = i
    · subst hk
      cases hi.symm.trans hw
      have hlt : k < x.puts.length := (List.getElem?_eq_some_iff.mp hi).1
      rcases Putter.step_cases hp with ⟨v, v', hv, rfl, hmoves⟩ | ⟨-, got, hgot, -⟩
      · cases hv
        exact ⟨v', List.getElem?_set_self hlt, hmoves.expected_eq⟩
      · cases hgot
    · exact ⟨w, by rw [List.getElem?_set_ne (Ne.symm hk)]; exact hw, rfl⟩
  | evict => cases h; exact .of_puts_eq rfl
  | evictStep i ev => obtain ⟨_, _, _, _, _, rfl⟩ := Sys.step_evict h; exact .of_puts_eq rfl
  | scrub d => cases h; exact .of_puts_eq rfl
  | scrubStep i ev => obtain ⟨_, _, _, _, _, rfl⟩ := Sys.step_scrub h; exact .of_puts_eq rfl
  | quarantine d stat => cases h; exact .of_puts_eq rfl
  | release d => cases h; exact .of_puts_eq rfl
  | get d => exact .of_puts_eq (by rw [Sys.step_get h])
  | corrupt d bytes =>
    obtain ⟨-, -, -, rfl⟩ := Sys.step_corrupt h
    exact .of_puts_eq rfl

namespace ClientCall.About

theorem mono {x y : Sys} {c : ClientCall} {d : Digest} (h : c.About x d) (hcarry : x.Carries y) :
    c.About y d := by
  obtain ⟨op, phase⟩ := c
  cases phase with
  | writing k =>
    obtain ⟨w, hw, hd⟩ := h
    obtain ⟨w', hw', heq⟩ := hcarry k w hw
    exact ⟨w', hw', heq.trans hd⟩
  | returned out => cases out <;> exact h
  | _ => exact h

theorem mirroring (n : SwarmNode) (op : ClientOp) (d : Digest) :
    ClientCall.About n.sys ⟨op, n.mirroring d⟩ d := by
  unfold SwarmNode.mirroring
  cases n.mirror <;> rfl

theorem settle (n : SwarmNode) (op : ClientOp) (d : Digest) (acc : Pushed) :
    ClientCall.About n.sys ⟨op, n.settle d acc⟩ d := by
  unfold SwarmNode.settle
  split
  · trivial
  · rfl

/-- A step of a call stays with its blob. -/
theorem step {H : HashFn} {n : SwarmNode} {holds : CasPeer → Digest → Bool} {c : ClientCall}
    {d : Digest} (h : c.About n.sys d) {ev : ClientEvent} {phase : ClientPhase} {eff : Effect}
    (hs : c.phase.step H n holds ev = some (phase, eff)) :
    ClientCall.About n.sys ⟨c.op, phase⟩ d := by
  obtain ⟨op, ph⟩ := c
  dsimp only at hs
  unfold ClientPhase.step at hs
  split at hs
  · -- the local write is done: the node's own record says of which blob
    next k =>
    obtain ⟨w, hw, rfl⟩ := h
    split at hs
    · next hput =>
      cases hs
      cases hw.symm.trans hput
      exact .mirroring n op _
    · cases hs; trivial
    · cases hs; trivial
    · cases hs
  · next d' =>
    obtain rfl : d' = d := h
    split at hs
    · cases hs; rfl
    · split at hs
      · cases hs; exact .mirroring n op _
      · cases hs; trivial
  · cases hs; trivial
  · next d' todo acc =>
    obtain rfl : d' = d := h
    split at hs
    · cases hs; exact .settle n op _ acc
    · cases hs
  · split at hs
    · cases hs
    · split at hs <;> cases hs <;> exact h
  · split at hs
    · cases hs; trivial
    · split at hs <;> cases hs <;> exact h
  · cases hs; trivial
  · next success =>
    cases hs
    cases success <;> exact h
  · cases hs
    split <;> exact h
  · cases hs

end ClientCall.About

namespace SwarmNode

/-- The calls are each about the blob they were made for. -/
def Told (n : SwarmNode) : Prop := ∀ c ∈ n.calls, ∀ d, c.op.digest? = some d → c.About n.sys d

/-- The node goes on: its calls keep their numbers. -/
structure Continues (n n' : SwarmNode) : Prop where
  cfg : n'.cfg = n.cfg
  told : n.Told → n'.Told
  ops : ∀ (k : Nat) (c : ClientCall), n.calls[k]? = some c →
    ∃ c' : ClientCall, n'.calls[k]? = some c' ∧ c'.op = c.op

/-- The node went on, or it is the one that was restarted. -/
structure Follows (restarted : Option Nat) (i : Nat) (n n' : SwarmNode) : Prop where
  cfg : n'.cfg = n.cfg
  told : n.Told → n'.Told
  goesOn : restarted = some i ∨ n.Continues n'

variable {n n' : SwarmNode}

theorem Continues.refl (n : SwarmNode) : n.Continues n := ⟨rfl, id, fun _ c hc => ⟨c, hc, rfl⟩⟩

theorem Continues.trans {n'' : SwarmNode} (h : n.Continues n') (h' : n'.Continues n'') :
    n.Continues n'' where
  cfg := h'.cfg.trans h.cfg
  told ht := h'.told (h.told ht)
  ops k c hc := by
    obtain ⟨c', hc', hop⟩ := h.ops k c hc
    obtain ⟨c'', hc'', hop'⟩ := h'.ops k c' hc'
    exact ⟨c'', hc'', hop'.trans hop⟩

theorem Continues.follows (h : n.Continues n') (r : Option Nat) (i : Nat) : Follows r i n n' :=
  ⟨h.cfg, h.told, .inr h⟩

/-- The store moves and the calls stand. -/
theorem continues_sys {sys : Sys} (h : n.sys.Carries sys) : n.Continues { n with sys } where
  cfg := rfl
  told ht c hc d hd := (ht c hc d hd).mono h
  ops _ c hc := ⟨c, hc, rfl⟩

/-- A new call, with the writes it begins. -/
theorem continues_append {ps : List Putter} {c : ClientCall}
    (hc : ∀ d, c.op.digest? = some d → c.About { n.sys with puts := n.sys.puts ++ ps } d) :
    n.Continues
      { n with sys := { n.sys with puts := n.sys.puts ++ ps }, calls := n.calls ++ [c] } where
  cfg := rfl
  told ht c' hc' d hd := by
    rcases List.mem_append.mp hc' with hold | hnew
    · exact (ht c' hold d hd).mono (.of_append rfl)
    · cases List.mem_singleton.mp hnew
      exact hc d hd
  ops k c' hc' := ⟨c', getElem?_append_of_some hc' _, rfl⟩

theorem continues_accept (n : SwarmNode) (op : ClientOp) : n.Continues (n.accept op) := by
  cases op with
  | put => exact continues_append fun d hd => by cases hd
  | putKeyed d =>
    refine continues_append fun d' hd' => ?_
    cases hd'
    exact ⟨⟨d, .stream, .entered⟩, List.getElem?_concat_length, rfl⟩
  | ensureReplicated d =>
    have happend : n.accept (.ensureReplicated d) =
        { n with sys := { n.sys with puts := n.sys.puts ++ [] },
                 calls := n.calls ++ [⟨.ensureReplicated d, .checking d⟩] } := by
      simp [accept]
    rw [happend]
    refine continues_append fun d' hd' => ?_
    cases hd'
    rfl

theorem continues_proceed {H : HashFn} {holds : CasPeer → Digest → Bool} {k : Nat} {c : ClientCall}
    (hk : n.calls[k]? = some c) {ev : ClientEvent} {phase : ClientPhase} {eff : Effect}
    (hs : c.phase.step H n holds ev = some (phase, eff)) :
    n.Continues (n.proceed k c.op phase eff) := by
  have hcarry : n.sys.Carries (n.proceed k c.op phase eff).sys := by
    cases eff <;> exact .of_puts_eq rfl
  refine ⟨rfl, fun ht c' hc' d hd => ?_, fun k' c' hc' => ?_⟩
  · rcases List.mem_or_eq_of_mem_set hc' with hold | rfl
    · exact (ht c' hold d hd).mono hcarry
    · exact ((ht c (List.mem_of_getElem? hk) d hd).step hs).mono hcarry
  · by_cases hkk : k' = k
    · subst hkk
      cases hk.symm.trans hc'
      exact ⟨⟨c.op, phase⟩, List.getElem?_set_self (List.getElem?_eq_some_iff.mp hk).1, rfl⟩
    · exact ⟨c', by
        rw [show (n.proceed k c.op phase eff).calls = n.calls.set k ⟨c.op, phase⟩ from rfl,
          List.getElem?_set_ne (Ne.symm hkk)]
        exact hc', rfl⟩

end SwarmNode

/-! ## The swarm -/

section Swarm

variable {H : HashFn} {x y : Swarm}

theorem Swarm.continues_deliver (resolve : Url → Option Nat) (x : Swarm) (eff : Effect) :
    Pointwise (fun _ => SwarmNode.Continues) x (x.deliver resolve eff) := by
  have hrefl := Pointwise.refl (fun _ => SwarmNode.Continues.refl) x
  unfold Swarm.deliver
  split
  · next url d body =>
    split
    · split
      · next j _ n hn =>
        exact .set (fun _ => .refl) hn (SwarmNode.continues_sys (.of_append rfl))
      · exact hrefl
    · exact hrefl
  · exact hrefl

/-- Every node goes on but the one that a step restarts. -/
theorem Swarm.follows_step {resolve : Url → Option Nat} {a : SwarmAct}
    (hs : Swarm.step H resolve x a = some y) :
    Pointwise (SwarmNode.Follows a.restarts) x y := by
  have hrefl : ∀ i n, SwarmNode.Follows a.restarts i n n := fun i n =>
    (SwarmNode.Continues.refl n).follows _ i
  cases a with
  | store j a =>
    obtain ⟨n, hj, hmap⟩ := Option.bind_eq_some_iff.mp hs
    obtain ⟨sys, hsys, rfl⟩ := Option.map_eq_some_iff.mp hmap
    exact .set hrefl hj ((SwarmNode.continues_sys (Sys.carries_step hsys)).follows _ j)
  | fill j d body =>
    obtain ⟨n, hj, hfill⟩ := Option.bind_eq_some_iff.mp hs
    split at hfill
    · cases hfill
      have hcarry : n.sys.Carries { n.sys with store := n.sys.store.land d body } := .of_puts_eq rfl
      exact .set hrefl hj ((SwarmNode.continues_sys hcarry).follows _ j)
    · cases hfill
  | restart j now blobs aside =>
    obtain ⟨n, hj, hopen⟩ := Option.bind_eq_some_iff.mp hs
    split at hopen
    · next n' hn' =>
      split at hopen
      · cases hopen
        refine .set hrefl hj ⟨?_, fun _ c hc => ?_, .inl rfl⟩
        · obtain ⟨_, _, _, _, -, -, -, -, rfl⟩ := SwarmNode.fromConfig_ok hn'
          rfl
        · rw [SwarmNode.calls_fromConfig hn'] at hc
          cases hc
      · cases hopen
    · cases hopen
  | call i op =>
    obtain ⟨n, hi, rfl⟩ := Option.map_eq_some_iff.mp hs
    exact .set hrefl hi ((SwarmNode.continues_accept n op).follows _ i)
  | client i k ev =>
    obtain ⟨n, hi, hcall⟩ := Option.bind_eq_some_iff.mp hs
    obtain ⟨c, hk, hmap⟩ := Option.bind_eq_some_iff.mp hcall
    obtain ⟨⟨phase, eff⟩, hstep, rfl⟩ := Option.map_eq_some_iff.mp hmap
    have hset : Pointwise (fun _ => SwarmNode.Continues) x (x.set i (n.proceed k c.op phase eff)) :=
      .set (fun _ => .refl) hi (SwarmNode.continues_proceed hk hstep)
    have hboth := hset.trans (fun _ _ _ _ h h' => h.trans h') (Swarm.continues_deliver resolve _ eff)
    exact ⟨hboth.length, fun j m m' hm hm' => (hboth.related j m m' hm hm').follows _ j⟩

end Swarm

end NessieStore
