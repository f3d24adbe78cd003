import NessieStore.Node.System

/-!
# Pinned blobs outlive maintenance

On a node without corruption the one thing that removes a blob is an eviction pass, and a pass works
from the roots it read under the pin lock. So nothing pinned is ever reclaimed, and neither is the
tree that the ref file names: between the rename of the ref and the swap of the registry the file
names a tree that is not pinned yet, but no pass can run there.

The invariant ties the four parties together: who has the lock, what each running pass may still
reclaim, where each pin call stands, and what the ref names.
-/

set_option autoImplicit false

namespace NessieStore

open Lib

/-- Nothing happens to the files but what the node does. -/
def NodeAct.benign : NodeAct → Bool
  | .store a => a.benign
  | _ => true

/-- What a pass may still reclaim is not pinned. -/
def Evictor.Spares (pinned : Finset Digest) : Evictor → Prop
  | .rooted p | .listed p _ => p = pinned
  | .chosen blobs _ => ∀ b ∈ blobs, b.digest ∉ pinned
  | .draining queue _ _ | .reclaimed _ _ queue _ _ => ∀ v ∈ queue, v.1.digest ∉ pinned
  | .start | .done _ => True

namespace Evictor

theorem Spares.of_not_holds {pinned : Finset Digest} {e : Evictor} (h : e.holds = false) :
    e.Spares pinned := by
  cases e with
  | start => trivial
  | done out => trivial
  | _ => cases h

/-- The queue is chosen from what the roots spare, and only gets shorter. -/
theorem Spares.step {pinned : Finset Digest} {s s' : CasStore} {e e' : Evictor} {ev : EvictEvent}
    (h : e.Spares pinned) (hroots : ∀ p ∈ ev.pinned, p = pinned) (hmove : Moves s e ev s' e') :
    e'.Spares pinned := by
  cases hmove with
  | begin => exact hroots _ rfl
  | list => exact h
  | snapshot =>
    intro b hb
    have hpinned : _ = pinned := h
    rw [← hpinned]
    exact (mem_candidates hb).1
  | order =>
    intro v hv
    exact h _ (mem_victims hv)
  | skip =>
    intro v hv
    exact h v (List.mem_cons_of_mem _ hv)
  | reclaim =>
    intro v hv
    exact h v (List.mem_cons_of_mem _ hv)
  | forget => exact h
  | finish => trivial

end Evictor

/-- The blob is held. -/
def NodeSys.holds (x : NodeSys) (d : Digest) : Prop := x.sys.store.inner.has d = true

/-- No call stands between the rename of the ref and the swap of the registry. -/
def NodeSys.settled (x : NodeSys) : Prop := ∀ c ∈ x.calls, ∀ pins tree, c.phase ≠ .renamed pins tree

structure PinInv (H : HashFn) (x : NodeSys) : Prop where
  intact : Intact H x.sys
  passes : ∀ i e, x.sys.evicts[i]? = some e → e.holds = true → x.lock = some (.pass i)
  spared : ∀ e ∈ x.sys.evicts, e.Spares x.roots.pinned
  calls : ∀ i c, x.calls[i]? = some c → c.phase.holds = true → x.lock = some (.call i)
  stands : ∀ c ∈ x.calls, c.Stands H (fun tree _ => x.holds tree) x.node
  tree : ∀ tree, x.roots.tree = some tree → x.holds tree
  ref : x.settled → namedBy x.ref = x.roots.tree
  /-- A node in memory has no ref. -/
  inMemory : x.refs = none → x.ref = none

namespace PinInv

variable {H : HashFn} {x y : NodeSys}

/-- A node that opens over sound files. -/
theorem opened {inner : LocalCas} (hsound : inner.Sound H) {mode : StorageMode} {now : Nat}
    {blobs : List LocalBlob} {aside : List QuarantinedBlob} {refs : Option String}
    {ref : Option (List Char)} {n : Node}
    (h : Node.open H inner mode now blobs aside refs ref = .ok n) : PinInv H (.idle n) := by
  have hbase : n.store.inner = inner ∧ (∀ tree, n.roots.tree = some tree → inner.has tree = true) ∧
      namedBy n.ref = n.roots.tree ∧ (n.refs = none → n.ref = none) := by
    cases refs with
    | none => cases h; exact ⟨rfl, by simp, rfl, by simp⟩
    | some path =>
      simp only [Node.open] at h
      cases hload : load H inner ref with
      | error e => rw [hload] at h; cases h
      | ok roots =>
        rw [hload] at h
        cases h
        obtain ⟨hnamed, hget⟩ := load_ok hload
        refine ⟨rfl, fun tree ht => ?_, hnamed, by simp⟩
        obtain ⟨b, hb⟩ := hget tree ht
        exact LocalCas.has_of_get hb
  obtain ⟨hinner, htree, hnamed, hmem⟩ := hbase
  exact {
    intact := .idle (by rw [hinner]; exact hsound)
    passes := by simp [NodeSys.idle, Sys.idle]
    spared := by simp [NodeSys.idle, Sys.idle]
    calls := by simp [NodeSys.idle]
    stands := by simp [NodeSys.idle]
    tree := by
      intro tree ht
      show n.store.inner.has tree = true
      rw [hinner]
      exact htree tree ht
    ref := fun _ => hnamed
    inMemory := hmem }

/-- While a pass has the lock, no call does. -/
theorem calls_idle (h : PinInv H x) {j : Nat} (hlock : x.lock = none ∨ x.lock = some (.pass j)) :
    ∀ c ∈ x.calls, c.phase.holds = false := by
  intro c hc
  obtain ⟨i, hi⟩ := List.getElem?_of_mem hc
  by_contra hholds
  have hown := h.calls i c hi (Bool.eq_true_of_not_eq_false hholds)
  rcases hlock with hlock | hlock <;> rw [hlock] at hown <;> cases hown

/-- While a call has the lock, no pass does. -/
theorem passes_idle (h : PinInv H x) {j : Nat} (hlock : x.lock = none ∨ x.lock = some (.call j)) :
    ∀ e ∈ x.sys.evicts, e.holds = false := by
  intro e he
  obtain ⟨i, hi⟩ := List.getElem?_of_mem he
  by_contra hholds
  have hown := h.passes i e hi (Bool.eq_true_of_not_eq_false hholds)
  rcases hlock with hlock | hlock <;> rw [hlock] at hown <;> cases hown

/-- A step of the store beside the pins: blobs are only added. -/
theorem store (h : PinInv H x) {sys : Sys} (hintact : Intact H sys)
    (hevicts : sys.evicts = x.sys.evicts)
    (hhas : ∀ d, x.holds d → sys.store.inner.has d = true) : PinInv H { x with sys } where
  intact := hintact
  passes := by rw [hevicts]; exact h.passes
  spared := by rw [hevicts]; exact h.spared
  calls := h.calls
  stands := fun c hc => (h.stands c hc).mono rfl rfl rfl fun tree _ => hhas tree
  tree := fun tree ht => hhas tree (h.tree tree ht)
  ref := h.ref
  inMemory := h.inMemory

theorem store_step (h : PinInv H x) {a : Act} (ha : a.benign = true)
    (hs : NodeSys.step H x (.store a) = some y) : PinInv H y := by
  obtain ⟨hevicts, sys, hsys, rfl⟩ := NodeSys.step_store hs
  refine h.store (h.intact.step ha hsys) (Sys.step_evicts hevicts hsys) ?_
  intro d hd
  rcases h.intact.has_step ha hsys hd with hkept | hgone
  · exact hkept
  · rw [Sys.reclaiming_eq_none hevicts] at hgone
    cases hgone

theorem change_step (h : PinInv H x) {op : PinOp} :
    PinInv H { x with calls := x.calls ++ [⟨op, .waiting⟩] } where
  intact := h.intact
  passes := h.passes
  spared := h.spared
  calls := by
    intro i c hi hholds
    rcases getElem?_concat_cases hi with hi | rfl
    · exact h.calls i c hi hholds
    · cases hholds
  stands := by
    intro c hc
    rcases List.mem_append.mp hc with hc | hc
    · exact h.stands c hc
    · cases List.mem_singleton.mp hc
      exact .of_not_holds rfl
  tree := h.tree
  ref := fun hset => h.ref fun c hc => hset c (List.mem_append_left _ hc)
  inMemory := h.inMemory

theorem maintain_step (h : PinInv H x) (hs : NodeSys.step H x .maintain = some y) : PinInv H y := by
  cases hs
  exact {
    intact := ⟨h.intact.sound, h.intact.scrubs⟩
    passes := by
      intro i e hi hholds
      rcases getElem?_concat_cases hi with hi | rfl
      · exact h.passes i e hi hholds
      · cases hholds
    spared := by
      intro e he
      rcases List.mem_append.mp he with he | he
      · exact h.spared e he
      · cases List.mem_singleton.mp he
        trivial
    calls := h.calls
    stands := h.stands
    tree := h.tree
    ref := h.ref
    inMemory := h.inMemory }

/-- A step of a pass takes away nothing that is pinned. -/
theorem pass_holds (h : PinInv H x) {i : Nat} {e e' : Evictor} {ev : EvictEvent} {s' : CasStore}
    (hi : x.sys.evicts[i]? = some e) (hmove : Evictor.Moves x.sys.store e ev s' e') {d : Digest}
    (hd : d ∈ x.roots.pinned) (hheld : x.holds d) : s'.inner.has d = true := by
  cases hmove with
  | @reclaim budget grace victim sole queue used report hm hover hv =>
    have hspares := h.spared _ (List.mem_of_getElem? hi) _ List.mem_cons_self
    have hne : d ≠ victim.digest := fun heq => hspares (heq ▸ hd)
    rw [LocalCas.has_reclaim, hheld]
    simp [hne]
  | _ => exact hheld

theorem pass_step (h : PinInv H x) {i : Nat} {ev : EvictEvent}
    (hs : NodeSys.step H x (.pass i ev) = some y) : PinInv H y := by
  obtain ⟨e, e', s', hi, hfree, hroots, hmove, hsys, rfl⟩ := NodeSys.step_pass hs
  have hlock : x.lock = none ∨ x.lock = some (.pass i) := by
    cases hholds : e.holds with
    | false => exact .inl (hfree hholds)
    | true => exact .inr (h.passes i e hi hholds)
  have hidle := h.calls_idle hlock
  have hstore : ∀ tree, x.roots.tree = some tree → s'.inner.has tree = true := fun tree ht =>
    h.pass_holds hi hmove (Refs.mem_pinned.mpr (.inr ht)) (h.tree tree ht)
  exact {
    intact := h.intact.step rfl hsys
    passes := by
      intro j f hj hholds
      rcases getElem?_set_cases hj with ⟨rfl, rfl⟩ | ⟨hne, hj⟩
      · simp [hholds]
      · have hown := h.passes j f hj hholds
        rcases hlock with hlock | hlock <;> rw [hlock] at hown <;> cases hown
        exact absurd rfl hne
    spared := forall_mem_set h.spared ((h.spared e (List.mem_of_getElem? hi)).step hroots hmove)
    calls := by
      intro j c hj hholds
      rw [hidle c (List.mem_of_getElem? hj)] at hholds
      cases hholds
    stands := fun c hc => .of_not_holds (hidle c hc)
    tree := hstore
    ref := h.ref
    inMemory := h.inMemory }

/-- What a call's step does to the registry and the ref: the tree is held before the ref names it,
and the registry follows the ref. -/
theorem call_registry (h : PinInv H x) {i : Nat} {c c' : PinCall} {ev : PinEvent} {n' : Node}
    (hi : x.calls[i]? = some c) (hothers : ∀ j d, j ≠ i → x.calls[j]? = some d →
      d.phase.holds = false) (hmove : PinCall.Moves H x.node c ev n' c') :
    (∀ tree, n'.roots.tree = some tree → n'.store.inner.has tree = true) ∧
    ((∀ pins tree, c'.phase ≠ .renamed pins tree) → namedBy n'.ref = n'.roots.tree) ∧
    (n'.refs = none → n'.ref = none) := by
  have hsettled : (∀ pins tree, c.phase ≠ .renamed pins tree) → x.settled := by
    intro hc d hd pins tree heq
    obtain ⟨j, hj⟩ := List.getElem?_of_mem hd
    by_cases hji : j = i
    · rw [hji, hi] at hj
      cases hj
      exact hc pins tree heq
    · have hholds := hothers j d hji hj
      rw [heq] at hholds
      cases hholds
  have hstands := h.stands c (List.mem_of_getElem? hi)
  have hkept : ∀ tree, x.roots.tree = some tree → n'.store.inner.has tree = true := fun tree ht =>
    hmove.has_mono (h.tree tree ht)
  rcases hmove.registry_cases with ⟨hroots, href, hc⟩ | ⟨pins, tree, hc, hc', hroots, href⟩ |
    ⟨pins, tree, hc, hc', hroots, href⟩ | ⟨hrefs, -, hc, hc', hroots, href⟩
  · rw [hroots, href, hmove.refs_eq]
    exact ⟨hkept, fun _ => h.ref (hsettled hc), h.inMemory⟩
  · rw [hroots, href, hmove.refs_eq]
    refine ⟨hkept, fun hnot => absurd hc' (hnot pins tree), fun hrefs => ?_⟩
    simp only [PinCall.Stands, hc] at hstands
    exact absurd hrefs hstands.1
  · simp only [PinCall.Stands, hc] at hstands
    rw [hroots, href, hmove.refs_eq]
    refine ⟨?_, fun _ => ?_, h.inMemory⟩
    · rintro _ ⟨⟩
      exact hmove.has_mono hstands.2.1
    · show namedBy x.ref = some tree
      rw [show x.ref = some (refLine tree) from hstands.2.2, namedBy_refLine]
  · have hnone : x.ref = none := h.inMemory hrefs
    rw [hroots, href, hmove.refs_eq]
    refine ⟨by simp, fun _ => ?_, h.inMemory⟩
    show namedBy x.ref = none
    rw [hnone]
    rfl

theorem call_step (h : PinInv H x) {i : Nat} {ev : PinEvent}
    (hs : NodeSys.step H x (.call i ev) = some y) : PinInv H y := by
  obtain ⟨c, c', n', hi, hfree, hmove, rfl⟩ := NodeSys.step_call hs
  have hlock : x.lock = none ∨ x.lock = some (.call i) := by
    cases hholds : c.phase.holds with
    | true => exact .inr (h.calls i c hi hholds)
    | false =>
      refine .inl (hfree ?_)
      -- a call that is done takes no step
      cases hmove <;> first | rfl | cases hholds
  have hothers : ∀ j c, j ≠ i → x.calls[j]? = some c → c.phase.holds = false := by
    intro j c hne hj
    by_contra hholds
    have hown := h.calls j c hj (Bool.eq_true_of_not_eq_false hholds)
    rcases hlock with hlock | hlock <;> rw [hlock] at hown <;> cases hown
    exact hne rfl
  obtain ⟨htree, href, hmem⟩ := h.call_registry hi hothers hmove
  have hpasses := h.passes_idle hlock
  have hhas : ∀ d, x.holds d → n'.store.inner.has d = true := fun d hd => hmove.has_mono hd
  have hstands : c'.Stands H (fun tree _ => n'.store.inner.has tree = true) n' :=
    (h.stands c (List.mem_of_getElem? hi)).step hmove (fun tree _ => hhas tree)
      fun pins w w' ev' _ _ _ hw hl hl' => hw.has_of_landed hl hl'
  exact {
    intact := ⟨hmove.sound h.intact.sound, h.intact.scrubs⟩
    passes := by
      intro j e hj hholds
      rw [hpasses e (List.mem_of_getElem? hj)] at hholds
      cases hholds
    spared := fun e he => .of_not_holds (hpasses e he)
    calls := by
      intro j d hj hholds
      rcases getElem?_set_cases hj with ⟨rfl, rfl⟩ | ⟨hne, hj⟩
      · simp [hholds]
      · rw [hothers j d hne hj] at hholds
        cases hholds
    stands := by
      intro d hd
      obtain ⟨j, hj⟩ := List.getElem?_of_mem hd
      rcases getElem?_set_cases hj with ⟨rfl, rfl⟩ | ⟨hne, hj⟩
      · exact hstands
      · exact .of_not_holds (hothers j d hne hj)
    tree := htree
    ref := fun hset => href (hset c' (mem_set_of_getElem? hi))
    inMemory := hmem }

theorem step (h : PinInv H x) {a : NodeAct} (ha : a.benign = true)
    (hs : NodeSys.step H x a = some y) : PinInv H y := by
  cases a with
  | store a => exact h.store_step ha hs
  | change op => cases hs; exact h.change_step
  | call i ev => exact h.call_step hs
  | maintain => exact h.maintain_step hs
  | pass i ev => exact h.pass_step hs

/-- The tree that the ref names is held: it is the registered one, or that of the call which has
just renamed the ref. -/
theorem named_holds (h : PinInv H x) {tree : Digest} (hnamed : namedBy x.ref = some tree) :
    x.holds tree := by
  by_cases hset : x.settled
  · exact h.tree tree ((h.ref hset).symm.trans hnamed)
  · simp only [NodeSys.settled, ne_eq, not_forall, not_not] at hset
    obtain ⟨c, hc, pins, tree', hphase⟩ := hset
    have hstands := h.stands c hc
    simp only [PinCall.Stands, hphase] at hstands
    obtain ⟨-, hheld, href⟩ := hstands
    have hsame : some tree' = some tree := by
      rw [← namedBy_refLine tree', ← hnamed]
      exact congrArg namedBy href.symm
    cases hsame
    exact hheld

end PinInv

/-- The digest whose `unpin` takes effect in the step: the swap of the registry that removes it. -/
def NodeSys.unpinning (x : NodeSys) : NodeAct → Option Digest
  | .call i .next =>
    match x.calls[i]? with
    | some ⟨.unpin d, .renamed _ _⟩ => some d
    | some ⟨.unpin d, .locked⟩ => if x.refs = none then some d else none
    | _ => none
  | _ => none

namespace PinInv

variable {H : HashFn} {x y : NodeSys}

/-- A pin stays registered until its `unpin` takes effect. -/
theorem pinned_step (h : PinInv H x) {a : NodeAct} (hs : NodeSys.step H x a = some y) {d : Digest}
    (hd : d ∈ x.roots.pins) (hkeep : x.unpinning a ≠ some d) : d ∈ y.roots.pins := by
  cases a with
  | store a =>
    obtain ⟨-, sys, -, rfl⟩ := NodeSys.step_store hs
    exact hd
  | change op => cases hs; exact hd
  | maintain => cases hs; exact hd
  | pass i ev =>
    obtain ⟨e, e', s', -, -, -, -, -, rfl⟩ := NodeSys.step_pass hs
    exact hd
  | call i ev =>
    obtain ⟨⟨op, phase⟩, c', n', hi, -, hmove, rfl⟩ := NodeSys.step_call hs
    have hstands := h.stands _ (List.mem_of_getElem? hi)
    show d ∈ n'.roots.pins
    rcases hmove.registry_cases with ⟨hroots, -⟩ | ⟨pins, tree, -, -, hroots, -⟩ |
      ⟨pins, tree, hc, -, hroots, -⟩ | ⟨hrefs, rfl, hc, -, hroots, -⟩
    · rw [hroots]
      exact hd
    · rw [hroots]
      exact hd
    · cases hc
      cases hmove with
      | replace =>
        have hpins : pins = op.change x.roots.pins := hstands.1
        rw [hroots, hpins]
        refine PinOp.mem_change hd fun hop => hkeep ?_
        subst hop
        simp only [NodeSys.unpinning, hi]
    · cases hc
      rw [hroots]
      refine PinOp.mem_change hd fun hop => hkeep ?_
      subst hop
      simp only [NodeSys.unpinning, hi]
      exact if_pos hrefs

/-- A pinned blob is not removed. -/
theorem holds_step (h : PinInv H x) {a : NodeAct} (ha : a.benign = true)
    (hs : NodeSys.step H x a = some y) {d : Digest} (hd : d ∈ x.roots.pins) (hheld : x.holds d) :
    y.holds d := by
  cases a with
  | store a =>
    obtain ⟨hevicts, sys, hsys, rfl⟩ := NodeSys.step_store hs
    rcases h.intact.has_step ha hsys hheld with hkept | hgone
    · exact hkept
    · rw [Sys.reclaiming_eq_none hevicts] at hgone
      cases hgone
  | change op => cases hs; exact hheld
  | maintain => cases hs; exact hheld
  | pass i ev =>
    obtain ⟨e, e', s', hi, -, -, hmove, -, rfl⟩ := NodeSys.step_pass hs
    exact h.pass_holds hi hmove (Refs.mem_pinned.mpr (.inl hd)) hheld
  | call i ev =>
    obtain ⟨c, c', n', hi, -, hmove, rfl⟩ := NodeSys.step_call hs
    exact hmove.has_mono hheld

/-- A call that pins `d` and returns `Ok`, or fails in its last sync, leaves `d` pinned. -/
theorem returned_pinned (h : PinInv H x) {i : Nat} {ev : PinEvent} {c c' : PinCall} {d : Digest}
    (hs : NodeSys.step H x (.call i ev) = some y) (hc : x.calls[i]? = some c)
    (hc' : y.calls[i]? = some c') (hd : c.op.pins = some d)
    (hret : c'.phase = .done (.ok ()) ∨ c.phase = .syncing) : d ∈ y.roots.pins := by
  have hmem : ∀ pins : Finset Digest, d ∈ c.op.change pins := by
    intro pins
    cases hop : c.op <;> simp only [hop, PinOp.pins, Option.some.injEq, reduceCtorEq] at hd <;>
      simp [PinOp.change, hd]
  obtain ⟨c₀, c₁, n', hi, -, hmove, rfl⟩ := NodeSys.step_call hs
  rw [hc] at hi
  cases hi
  rcases getElem?_set_cases hc' with ⟨-, rfl⟩ | ⟨hne, -⟩
  · have hstands := h.stands _ (List.mem_of_getElem? hc)
    show d ∈ n'.roots.pins
    cases hmove with
    | unchanged hsame => rw [← hsame]; exact hmem _
    | inMemory => exact hmem _
    | synced =>
      have hsame : _ = x.roots.pins := hstands
      show d ∈ x.roots.pins
      rw [← hsame]
      exact hmem _
    | syncFailed =>
      have hsame : _ = x.roots.pins := hstands
      show d ∈ x.roots.pins
      rw [← hsame]
      exact hmem _
    | _ => simp at hret
  · exact absurd rfl hne

end PinInv

/-- **Pinned blobs outlive maintenance.** On a node that opens over sound files, in every
interleaving of writes, pin calls, eviction passes and scrubs without external corruption: the tree
that the ref file names is held; a `pin` or `put_and_pin` of `d` that returns `Ok`, or fails in its
last sync, has `d` pinned; and a pinned digest that is held stays pinned and held until an `unpin`
of it takes effect. -/
theorem pinned_blobs_kept {H : HashFn} {inner : LocalCas} (hsound : inner.Sound H)
    {mode : StorageMode} {now : Nat} {blobs : List LocalBlob} {aside : List QuarantinedBlob}
    {refs : Option String} {ref : Option (List Char)} {n : Node}
    (hopen : Node.open H inner mode now blobs aside refs ref = .ok n) {as : List NodeAct}
    {x : NodeSys} (hrun : Run (NodeSys.step H) (fun _ a => a.benign = true) (.idle n) as x) :
    (∀ tree, namedBy x.ref = some tree → x.holds tree) ∧
    (∀ i ev y c c' d, NodeSys.step H x (.call i ev) = some y → x.calls[i]? = some c →
      y.calls[i]? = some c' → c.op.pins = some d →
      c'.phase = .done (.ok ()) ∨ c.phase = .syncing → d ∈ y.roots.pins) ∧
    ∀ d bs y, d ∈ x.roots.pins → x.holds d →
      Run (NodeSys.step H) (fun z a => a.benign = true ∧ z.unpinning a ≠ some d) x bs y →
      d ∈ y.roots.pins ∧ y.holds d := by
  have hx : PinInv H x := hrun.keeps (fun ha hI hs => hI.step ha hs) (.opened hsound hopen)
  refine ⟨fun tree hnamed => hx.named_holds hnamed, ?_, ?_⟩
  · intro i ev y c c' d hs hc hc' hd hret
    exact hx.returned_pinned hs hc hc' hd hret
  · intro d bs y hd hheld hafter
    have hall : PinInv H y ∧ d ∈ y.roots.pins ∧ y.holds d :=
      hafter.keeps (I := fun z => PinInv H z ∧ d ∈ z.roots.pins ∧ z.holds d)
        (fun hK hI hs => ⟨hI.1.step hK.1 hs, hI.1.pinned_step hs hI.2.1 hK.2,
          hI.1.holds_step hK.1 hs hI.2.1 hI.2.2⟩) ⟨hx, hd, hheld⟩
    exact hall.2

section Example

/-- The blob that is pinned below, and one that is not. -/
def keptBlob : Digest := .compute .short [1, 2]

def coldBlob : Digest := .compute .short [7]

/-- The tree of the one pin. -/
def keptTree : Digest := .compute .short (rootBytes {keptBlob})

/-- Two blobs are written, and the first is pinned. -/
def pinsOne : List NodeAct :=
  [.store (.putKeyed keptBlob), .store (.write 0 (.decide false)), .store (.write 0 (.read [1, 2])),
    .store (.write 0 (.read [])), .store (.write 0 .publish), .store (.putKeyed coldBlob),
    .store (.write 1 (.decide false)), .store (.write 1 (.read [7])), .store (.write 1 (.read [])),
    .store (.write 1 .publish), .change (.pin keptBlob), .call 0 .next, .call 0 .next,
    .call 0 (.write (.decide false)), .call 0 (.write (.read (rootBytes {keptBlob}))),
    .call 0 (.write (.read [])), .call 0 (.write .publish), .call 0 (.write .release),
    .call 0 (.write (.afterWrite 5)), .call 0 (.write .ret), .call 0 .next, .call 0 .next,
    .call 0 .next, .call 0 .next, .call 0 .next, .call 0 .next, .call 0 .next, .call 0 .next]

/-- An eviction pass without budget or grace takes the other blob and spares the pinned one. -/
theorem pinned_blobs_kept_cold_evicted :
    ∃ n x y, Node.open .short ⟨.disk, ∅, ∅, false⟩ (.lru 0 0) 0 [] [] (some "refs") none = .ok n ∧
      run (NodeSys.step .short) (fun _ a => a.benign = true) (.idle n) pinsOne = some x ∧
      run (NodeSys.step .short) (fun z a => a.benign = true ∧ z.unpinning a ≠ some keptBlob) x
        [.maintain, .pass 0 (.roots (Refs.pinned ⟨{keptBlob}, some keptTree⟩)),
          .pass 0 (.list [⟨keptBlob, 2⟩, ⟨coldBlob, 1⟩, ⟨keptTree, 146⟩]), .pass 0 (.snapshot 9),
          .pass 0 (.order []), .pass 0 .reclaim] = some y ∧
      y.sys.store.inner.has coldBlob = false ∧ y.holds keptBlob := by
  have hrun : ∃ x, run (NodeSys.step .short) (fun _ a => a.benign = true)
        (.idle ⟨.new ⟨.disk, ∅, ∅, false⟩ (.lru 0 0) 0 [] [], ⟨∅, none⟩, some "refs", none, false⟩)
        pinsOne = some x ∧
      (keptBlob ∈ x.roots.pins ∧ x.sys.store.inner.has keptBlob = true) ∧
      ((run (NodeSys.step .short) (fun z a => a.benign = true ∧ z.unpinning a ≠ some keptBlob) x
        [.maintain, .pass 0 (.roots (Refs.pinned ⟨{keptBlob}, some keptTree⟩)),
          .pass 0 (.list [⟨keptBlob, 2⟩, ⟨coldBlob, 1⟩, ⟨keptTree, 146⟩]), .pass 0 (.snapshot 9),
          .pass 0 (.order []), .pass 0 .reclaim]).any
        fun y => y.sys.store.inner.has coldBlob = false) = true :=
    run_exists (by decide +kernel)
  obtain ⟨x, hx, ⟨hpin, hheld⟩, hrest⟩ := hrun
  obtain ⟨y, hy, hgone⟩ := (Option.any_eq_true _ _).mp hrest
  have hsound : (⟨.disk, ∅, ∅, false⟩ : LocalCas).Sound .short := by
    intro d hbad
    cases hbad
  have hopen : Node.open .short ⟨.disk, ∅, ∅, false⟩ (.lru 0 0) 0 [] [] (some "refs") none =
      .ok ⟨.new ⟨.disk, ∅, ∅, false⟩ (.lru 0 0) 0 [] [], ⟨∅, none⟩, some "refs", none, false⟩ := rfl
  exact ⟨_, x, y, hopen, hx, hy, of_decide_eq_true hgone,
    ((pinned_blobs_kept hsound hopen (run_sound hx)).2.2 _ _ _ hpin hheld (run_sound hy)).2⟩

end Example

end NessieStore
