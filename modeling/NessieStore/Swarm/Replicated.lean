import NessieStore.Lib.Run
import NessieStore.Swarm.Permanent

/-!
# An acknowledged write has its copies, for good

`push_counting` counts answers, one peer after the other, while the swarm goes on. The count means
something because the peers it walks are pairwise different nodes (`Apart`), because only a peer that
holds the blob and reports `write_only` is counted (`Counted.confirm`), and because such a peer never
lets go of it (`Held`, `SwarmInv.step`). So at the end of the loop as many other nodes hold the blob
as were counted, and they hold it from then on.

`ensure_replicated` on a node without a mirror returns at once, whether the blob is held or not, as
its documentation says; that call is not covered.
-/

set_option autoImplicit false

namespace NessieStore

open Lib

/-! ## Names -/

/-- A node's peer URLs name different nodes, and name the node itself only by its `advertise_url`. -/
structure Named (resolve : Url → Option Nat) (i : Nat) (cfg : CasConfig) : Prop where
  distinct : ∀ p ∈ cfg.peers, ∀ q ∈ cfg.peers, (resolve (normUrl p.url)).isSome = true →
    resolve (normUrl p.url) = resolve (normUrl q.url) → normUrl p.url = normUrl q.url
  self : ∀ p ∈ cfg.peers, resolve (normUrl p.url) = some i →
    cfg.advertiseUrl.map normUrl = some (normUrl p.url)

/-- The peers are pairwise different nodes, and none of them is node `i`. -/
structure Apart (resolve : Url → Option Nat) (i : Nat) (ps : List CasPeer) : Prop where
  other : ∀ p ∈ ps, resolve (normUrl p.url) ≠ some i
  distinct : ps.Pairwise fun p q =>
    ∀ j, resolve (normUrl p.url) = some j → resolve (normUrl q.url) ≠ some j

theorem Apart.tail {resolve : Url → Option Nat} {i : Nat} {p : CasPeer} {ps : List CasPeer}
    (h : Apart resolve i (p :: ps)) : Apart resolve i ps :=
  ⟨fun q hq => h.other q (List.mem_cons_of_mem _ hq), (List.pairwise_cons.mp h.distinct).2⟩

/-- The peers a configured node pushes to are apart. -/
theorem SwarmNode.Configured.apart {n : SwarmNode} (h : n.Configured)
    {resolve : Url → Option Nat} {i : Nat} (hnamed : Named resolve i n.cfg) :
    Apart resolve i n.targets := by
  obtain ⟨list, -, hlist, -, hpeers, -⟩ := h.peers
  have hmem : ∀ p ∈ n.targets, (∃ q ∈ n.cfg.peers, normUrl p.url = normUrl q.url) ∧
      n.cfg.advertiseUrl.map normUrl ≠ some (normUrl p.url) := by
    intro p hp
    have hp' := (List.mem_filter.mp hp).1
    rw [hpeers] at hp'
    exact CasConfig.mem_peerSet hlist hp'
  refine ⟨fun p hp hi => ?_, ?_⟩
  · obtain ⟨⟨q, hq, hurl⟩, hme⟩ := hmem p hp
    rw [hurl] at hi hme
    exact hme (hnamed.self q hq hi)
  · have hpair : n.targets.Pairwise fun p q => normUrl p.url ≠ normUrl q.url := by
      rw [targets, hpeers]
      exact (peerSet_pairwise list).filter _
    refine hpair.imp_of_mem fun {p q} hp hq hne j hj hj' => ?_
    obtain ⟨⟨p', hp', hurl⟩, -⟩ := hmem p hp
    obtain ⟨⟨q', hq', hurl'⟩, -⟩ := hmem q hq
    rw [hurl] at hj hne
    rw [hurl'] at hj' hne
    exact hne (hnamed.distinct p' hp' q' hq' (by rw [hj]; rfl) (hj.trans hj'.symm))

/-! ## Holders -/

/-- Node `j` reports `write_only` and holds `d`. -/
def Held (x : Swarm) (j : Nat) (d : Digest) : Prop :=
  ∃ n, x[j]? = some n ∧ n.writeOnly = true ∧ n.has d = true

/-- Node `i` and `k` others hold `d`. -/
def Replicated (x : Swarm) (i : Nat) (d : Digest) (k : Nat) : Prop :=
  Held x i d ∧ ∃ S : Finset Nat, k ≤ S.card ∧ i ∉ S ∧ ∀ j ∈ S, Held x j d

section Counting

variable (resolve : Url → Option Nat) (x : Swarm) (i : Nat) (d : Digest)

/-- As many other nodes as were counted hold `d`, and none of them is still to be asked. -/
def Counted (todo : List CasPeer) (held : Nat) : Prop :=
  ∃ S : Finset Nat, S.card = held ∧ i ∉ S ∧ (∀ j ∈ S, Held x j d) ∧
    ∀ p ∈ todo, ∀ j, resolve (normUrl p.url) = some j → j ∉ S

variable {resolve x i d} {p : CasPeer} {todo : List CasPeer} {held : Nat}

theorem Counted.none (todo : List CasPeer) : Counted resolve x i d todo 0 :=
  ⟨∅, rfl, Finset.notMem_empty i, fun _ hj => absurd hj (Finset.notMem_empty _),
    fun _ _ _ _ => Finset.notMem_empty _⟩

/-- A peer that does not confirm is passed over. -/
theorem Counted.skip (h : Counted resolve x i d (p :: todo) held) :
    Counted resolve x i d todo held := by
  obtain ⟨S, hcard, hi, hheld, hfresh⟩ := h
  exact ⟨S, hcard, hi, hheld, fun q hq => hfresh q (List.mem_cons_of_mem _ hq)⟩

/-- A peer that confirms is one more node that holds the blob. -/
theorem Counted.confirm (h : Counted resolve x i d (p :: todo) held)
    (hapart : Apart resolve i (p :: todo)) (hp : x.holdsDurably resolve p d = true) :
    Counted resolve x i d todo (held + 1) := by
  obtain ⟨S, hcard, hi, hheld, hfresh⟩ := h
  obtain ⟨n, hn, hholds⟩ := (Option.any_eq_true _ _).mp hp
  obtain ⟨j, hj, hjn⟩ := Option.bind_eq_some_iff.mp hn
  rw [Bool.and_eq_true] at hholds
  have hnew : j ∉ S := hfresh p List.mem_cons_self j hj
  have hne : i ≠ j := fun hij => hapart.other p List.mem_cons_self (hij ▸ hj)
  refine ⟨insert j S, by rw [Finset.card_insert_of_notMem hnew, hcard], ?_, ?_, ?_⟩
  · simp [hne, hi]
  · intro j' hj'
    rcases Finset.mem_insert.mp hj' with rfl | hj'
    · exact ⟨n, hjn, hholds.2, hholds.1⟩
    · exact hheld j' hj'
  · intro q hq j' hj' hmem
    rcases Finset.mem_insert.mp hmem with rfl | hmem
    · exact (List.pairwise_cons.mp hapart.distinct).1 q hq j' hj hj'
    · exact hfresh q (List.mem_cons_of_mem _ hq) j' hj' hmem

end Counting

/-! ## The calls -/

/-- What stands behind a call on a `write_only` node, at each point of it. -/
def ClientCall.Backed (resolve : Url → Option Nat) (x : Swarm) (i : Nat) (mirror : Option Nat)
    (c : ClientCall) : Prop :=
  match c.phase with
  | .writing _ => True
  | .checking _ => c.op.writes = false
  | .pushing d todo acc =>
    Held x i d ∧ Apart resolve i todo ∧ Counted resolve x i d todo acc.held
  | .sending d p todo acc | .awaiting d p todo acc | .confirming d p todo acc =>
    Held x i d ∧ Apart resolve i (p :: todo) ∧ Counted resolve x i d (p :: todo) acc.held
  | .returned (.ok d) =>
    c.op.writes = true ∨ mirror.isSome = true → Replicated x i d (mirror.getD 0)
  | .returned (.error _) => True

/-- Everything but files going bad. -/
def SwarmAct.benign : SwarmAct → Bool
  | .store _ a => a.benign
  | _ => true

/-- A swarm of nodes on intact disks, at any moment. -/
structure SwarmInv (H : HashFn) (resolve : Url → Option Nat) (x : Swarm) : Prop where
  nodes : ∀ (j : Nat) (n : SwarmNode), x[j]? = some n → n.Inv H
  named : ∀ (j : Nat) (n : SwarmNode), x[j]? = some n → Named resolve j n.cfg
  calls : ∀ (j : Nat) (n : SwarmNode), x[j]? = some n → n.writeOnly = true →
    ∀ c ∈ n.calls, c.Backed resolve x j n.mirror

section Steps

variable {H : HashFn} {resolve : Url → Option Nat} {x y : Swarm} {i : Nat}

theorem Replicated.mono {d : Digest} {k : Nat} (h : Replicated x i d k)
    (hmono : ∀ j d, Held x j d → Held y j d) : Replicated y i d k := by
  obtain ⟨hself, S, hcard, hi, hheld⟩ := h
  exact ⟨hmono _ _ hself, S, hcard, hi, fun j hj => hmono j d (hheld j hj)⟩

theorem Counted.mono {d : Digest} {todo : List CasPeer} {k : Nat}
    (h : Counted resolve x i d todo k) (hmono : ∀ j d, Held x j d → Held y j d) :
    Counted resolve y i d todo k := by
  obtain ⟨S, hcard, hi, hheld, hfresh⟩ := h
  exact ⟨S, hcard, hi, fun j hj => hmono j d (hheld j hj), hfresh⟩

theorem ClientCall.Backed.mono {mirror : Option Nat} {c : ClientCall}
    (h : c.Backed resolve x i mirror) (hmono : ∀ j d, Held x j d → Held y j d) :
    c.Backed resolve y i mirror := by
  obtain ⟨op, phase⟩ := c
  cases phase with
  | writing k => trivial
  | checking d => exact h
  | pushing d todo acc => exact ⟨hmono _ _ h.1, h.2.1, h.2.2.mono hmono⟩
  | sending d p todo acc => exact ⟨hmono _ _ h.1, h.2.1, h.2.2.mono hmono⟩
  | awaiting d p todo acc => exact ⟨hmono _ _ h.1, h.2.1, h.2.2.mono hmono⟩
  | confirming d p todo acc => exact ⟨hmono _ _ h.1, h.2.1, h.2.2.mono hmono⟩
  | returned out =>
    cases out with
    | ok d => exact fun hw => (h hw).mono hmono
    | error e => trivial

/-- The mirror begins with nothing counted; without one, the node's own copy is all there is. -/
theorem backed_mirroring {n : SwarmNode} {op : ClientOp} {d : Digest} (hheld : Held x i d)
    (hapart : Apart resolve i n.targets) :
    ClientCall.Backed resolve x i n.mirror ⟨op, n.mirroring d⟩ := by
  unfold SwarmNode.mirroring
  cases hm : n.mirror with
  | none =>
    intro _
    exact ⟨hheld, ∅, Nat.le_refl 0, Finset.notMem_empty i,
      fun _ hj => absurd hj (Finset.notMem_empty _)⟩
  | some k => exact ⟨hheld, hapart, .none _⟩

/-- One step of a call, in the swarm as it is. -/
theorem ClientCall.Backed.step (hinv : SwarmInv H resolve x) {n : SwarmNode}
    (hi : x[i]? = some n) (hwo : n.writeOnly = true) {c : ClientCall}
    (h : c.Backed resolve x i n.mirror) {ev : ClientEvent} {phase : ClientPhase} {eff : Effect}
    (hs : c.phase.step H n (x.holdsDurably resolve) ev = some (phase, eff)) :
    ClientCall.Backed resolve x i n.mirror ⟨c.op, phase⟩ := by
  have hapart := (hinv.nodes i n hi).configured.apart (hinv.named i n hi)
  have hwrites := (hinv.nodes i n hi).writes hwo
  obtain ⟨op, ph⟩ := c
  dsimp only at hs
  unfold ClientPhase.step at hs
  split at hs
  · -- the local write is done
    next k =>
    split at hs
    · next d src u hput =>
      cases hs
      have hhas := hwrites _ (List.mem_of_getElem? hput) d (by
        simp [Putter.wrote, Phase.wrote])
      exact backed_mirroring ⟨n, hi, hwo, hhas⟩ hapart
    · cases hs; trivial
    · cases hs; trivial
    · cases hs
  · next d =>
    split at hs
    · next hnone =>
      cases hs
      intro hw
      rcases hw with hw | hw
      · rw [show op.writes = false from h] at hw; cases hw
      · rw [Option.isNone_iff_eq_none.mp hnone] at hw; cases hw
    · split at hs
      · next hhas =>
        cases hs
        exact backed_mirroring ⟨n, hi, hwo, hhas⟩ hapart
      · cases hs; trivial
  · cases hs; trivial
  · -- the end of the loop
    next d todo acc =>
    split at hs
    · cases hs
      unfold SwarmNode.settle
      split
      · trivial
      · next henough =>
        intro _
        obtain ⟨hself, -, S, hcard, hout, hheld, -⟩ := h
        exact ⟨hself, S, by rw [hcard]; exact Nat.le_of_not_lt henough, hout, hheld⟩
    · cases hs
  · next d p todo acc answered =>
    obtain ⟨hself, hap, hcount⟩ := h
    split at hs
    · cases hs
    · split at hs
      · next hyes =>
        cases hs
        exact ⟨hself, hap.tail, hcount.confirm hap (Bool.and_eq_true_iff.mp hyes).2⟩
      · cases hs
        exact ⟨hself, hap, hcount⟩
  · next d p todo acc arrives =>
    obtain ⟨hself, hap, hcount⟩ := h
    split at hs
    · cases hs; trivial
    · split at hs
      · cases hs; exact ⟨hself, hap, hcount⟩
      · cases hs; exact ⟨hself, hap.tail, hcount.skip⟩
  · cases hs; trivial
  · next d p todo acc success =>
    obtain ⟨hself, hap, hcount⟩ := h
    cases hs
    cases success with
    | true => exact ⟨hself, hap, hcount⟩
    | false => exact ⟨hself, hap.tail, hcount.skip⟩
  · next d p todo acc answered =>
    obtain ⟨hself, hap, hcount⟩ := h
    cases hs
    split
    · next hyes => exact ⟨hself, hap.tail, hcount.confirm hap (Bool.and_eq_true_iff.mp hyes).2⟩
    · exact ⟨hself, hap.tail, hcount.skip⟩
  · cases hs

namespace SwarmInv

/-- One node changes. Its calls are the ones it had, or are backed in the swarm as it was. -/
theorem set (h : SwarmInv H resolve x) {j : Nat} {n n' : SwarmNode} (hj : x[j]? = some n)
    (hn : n'.Inv H ∧ n.Grows n')
    (hcalls : n.writeOnly = true → ∀ c ∈ n'.calls, c ∈ n.calls ∨ c.Backed resolve x j n.mirror) :
    SwarmInv H resolve (x.set j n') ∧ ∀ k d, Held x k d → Held (x.set j n') k d := by
  obtain ⟨hinv, hgrow⟩ := hn
  have hlt : j < x.length := (List.getElem?_eq_some_iff.mp hj).1
  have hmono : ∀ k d, Held x k d → Held (x.set j n') k d := by
    rintro k d ⟨m, hm, hwo, hhas⟩
    by_cases hk : k = j
    · subst hk
      cases hj.symm.trans hm
      exact ⟨n', List.getElem?_set_self hlt, hgrow.writeOnly.trans hwo, hgrow.has hwo d hhas⟩
    · exact ⟨m, by rw [List.getElem?_set_ne (Ne.symm hk)]; exact hm, hwo, hhas⟩
  refine ⟨⟨fun k m hm => ?_, fun k m hm => ?_, fun k m hm hwo c hc => ?_⟩, hmono⟩
  · rcases getElem?_set_cases hm with ⟨-, rfl⟩ | ⟨-, hm⟩
    · exact hinv
    · exact h.nodes k m hm
  · rcases getElem?_set_cases hm with ⟨rfl, rfl⟩ | ⟨-, hm⟩
    · rw [hgrow.cfg]
      exact h.named k n hj
    · exact h.named k m hm
  · rcases getElem?_set_cases hm with ⟨rfl, rfl⟩ | ⟨-, hm⟩
    · have hwo' := hgrow.writeOnly.symm.trans hwo
      rw [hgrow.mirror]
      rcases hcalls hwo' c hc with hold | hnew
      · exact (h.calls k n hj hwo' c hold).mono hmono
      · exact hnew.mono hmono
    · exact (h.calls k m hm hwo c hc).mono hmono

/-- A request that reaches a peer starts a write there and changes nothing else. -/
theorem deliver (h : SwarmInv H resolve x) (eff : Effect) :
    SwarmInv H resolve (x.deliver resolve eff) ∧
      ∀ k d, Held x k d → Held (x.deliver resolve eff) k d := by
  unfold Swarm.deliver
  split
  · next url d body =>
    split
    · next j _ =>
      split
      · next n hn =>
        exact h.set hn ((h.nodes j n hn).receive d body) fun _ c hc => .inl hc
      · exact ⟨h, fun _ _ => id⟩
    · exact ⟨h, fun _ _ => id⟩
  · exact ⟨h, fun _ _ => id⟩

/-- The step lemma: the invariant holds on, and a `write_only` node keeps what it holds. -/
theorem step (h : SwarmInv H resolve x) {a : SwarmAct} (ha : a.benign = true)
    (hs : Swarm.step H resolve x a = some y) :
    SwarmInv H resolve y ∧ ∀ j d, Held x j d → Held y j d := by
  cases a with
  | store j a =>
    obtain ⟨n, hj, hmap⟩ := Option.bind_eq_some_iff.mp hs
    obtain ⟨sys, hsys, rfl⟩ := Option.map_eq_some_iff.mp hmap
    exact h.set hj ((h.nodes j n hj).store ha hsys) fun _ c hc => .inl hc
  | fill j d body =>
    obtain ⟨n, hj, hfill⟩ := Option.bind_eq_some_iff.mp hs
    split at hfill
    · next hok =>
      cases hfill
      exact h.set hj ((h.nodes j n hj).fill hok.1 hok.2.2) fun _ c hc => .inl hc
    · cases hfill
  | restart j now blobs aside =>
    obtain ⟨n, hj, hopen⟩ := Option.bind_eq_some_iff.mp hs
    split at hopen
    · next n' hn' =>
      split at hopen
      · cases hopen
        refine h.set hj ((h.nodes j n hj).restart hn') fun _ c hc => ?_
        rw [SwarmNode.calls_fromConfig hn'] at hc
        cases hc
      · cases hopen
    · cases hopen
  | call i op =>
    obtain ⟨n, hi, rfl⟩ := Option.map_eq_some_iff.mp hs
    refine h.set hi ((h.nodes i n hi).accept op) fun _ c hc => ?_
    rcases SwarmNode.mem_calls_accept hc with hold | ⟨k, rfl⟩ | ⟨d, rfl, rfl⟩
    · exact .inl hold
    · exact .inr trivial
    · exact .inr rfl
  | client i k ev =>
    obtain ⟨n, hi, hcall⟩ := Option.bind_eq_some_iff.mp hs
    obtain ⟨c, hk, hmap⟩ := Option.bind_eq_some_iff.mp hcall
    obtain ⟨⟨phase, eff⟩, hstep, rfl⟩ := Option.map_eq_some_iff.mp hmap
    have hset := h.set hi ((h.nodes i n hi).proceed k c.op phase eff) fun hwo c' hc' => by
      rcases List.mem_or_eq_of_mem_set hc' with hold | rfl
      · exact .inl hold
      · exact .inr ((h.calls i n hi hwo c (List.mem_of_getElem? hk)).step h hi hwo hstep)
    have hdeliver := hset.1.deliver eff
    exact ⟨hdeliver.1, fun j d hj => hdeliver.2 j d (hset.2 j d hj)⟩

/-- A `write_only` node keeps what it holds, through a whole run. -/
theorem held_of_run (h : SwarmInv H resolve x) {as : List SwarmAct}
    (hrun : Run (Swarm.step H resolve) (fun _ a => a.benign = true) x as y) {j : Nat} {d : Digest}
    (hd : Held x j d) : Held y j d := by
  have hboth : SwarmInv H resolve y ∧ Held y j d :=
    hrun.keeps (I := fun z => SwarmInv H resolve z ∧ Held z j d)
      (fun ha hI hs => ⟨(hI.1.step ha hs).1, (hI.1.step ha hs).2 j d hI.2⟩) ⟨h, hd⟩
  exact hboth.2

end SwarmInv

end Steps

/-! ## The theorem -/

/-- The node has just been opened by `from_config`, on a disk with no corrupt file. -/
def SwarmNode.Opened (H : HashFn) (n : SwarmNode) : Prop :=
  ∃ disk now blobs aside, SwarmNode.fromConfig n.cfg disk now blobs aside = .ok n ∧
    n.cfg.backend = .disk ∧ disk.Sound H

theorem SwarmInv.opened {H : HashFn} {resolve : Url → Option Nat} {x : Swarm}
    (hopen : ∀ n ∈ x, n.Opened H)
    (hnamed : ∀ (i : Nat) (n : SwarmNode), x[i]? = some n → Named resolve i n.cfg) :
    SwarmInv H resolve x := by
  refine ⟨fun j n hj => ?_, hnamed, fun j n hj hwo c hc => ?_⟩
  · obtain ⟨disk, now, blobs, aside, hn, hdisk, hsound⟩ := hopen n (List.mem_of_getElem? hj)
    exact (SwarmNode.Inv.opened hn hdisk hsound).1
  · obtain ⟨disk, now, blobs, aside, hn, -, -⟩ := hopen n (List.mem_of_getElem? hj)
    rw [SwarmNode.calls_fromConfig hn] at hc
    cases hc

section Returned

variable {H : HashFn} {resolve : Url → Option Nat} {x : Swarm} (h : SwarmInv H resolve x) {i : Nat}
  {n : SwarmNode} (hi : x[i]? = some n) (hmode : n.cfg.mode = .writeOnly) {d : Digest}
include h hi hmode

/-- What stands behind an `Ok` is `R` copies. -/
theorem SwarmInv.replicated_of_backed {op : ClientOp} (hop : op.writes = true ∨ 2 ≤ n.cfg.copies)
    (hback : ClientCall.Backed resolve x i n.mirror ⟨op, .returned (.ok d)⟩) :
    Replicated x i d (n.cfg.copies - 1) := by
  obtain ⟨hpos, hmirror⟩ := (h.nodes i n hi).configured.mirror_eq hmode
  have htarget : n.mirror.getD 0 = n.cfg.copies - 1 := by
    rw [hmirror]
    split
    · next hone => rw [hone]; rfl
    · rfl
  rw [← htarget]
  exact hback (hop.imp_right fun htwo => by
    rw [hmirror, if_neg (by omega)]
    rfl)

/-- A call that has returned `Ok` for `d` stands for `R` copies. -/
theorem SwarmInv.replicated_of_returned {c : ClientCall} (hc : c ∈ n.calls)
    (hret : c.phase = .returned (.ok d)) (hop : c.op.writes = true ∨ 2 ≤ n.cfg.copies) :
    Replicated x i d (n.cfg.copies - 1) := by
  have hwo := (h.nodes i n hi).configured.writeOnly_iff.mpr hmode
  have hback := h.calls i n hi hwo c hc
  obtain ⟨op, phase⟩ := c
  cases hret
  exact h.replicated_of_backed hi hmode hop hback

end Returned

/-- Whatever the swarm, its network and its configuration hints did: when a `put` or `put_keyed` on a
`write_only` node has returned `Ok` for `d`, or an `ensure_replicated` where `R` is at least two,
then the node and `R - 1` others that report `write_only` hold `d`, and hold it ever after. -/
theorem acknowledged_copies_kept {H : HashFn} {resolve : Url → Option Nat} {x₀ x : Swarm}
    {as : List SwarmAct} (hopen : ∀ n ∈ x₀, n.Opened H)
    (hnamed : ∀ (i : Nat) (n : SwarmNode), x₀[i]? = some n → Named resolve i n.cfg)
    (hrun : Run (Swarm.step H resolve) (fun _ a => a.benign = true) x₀ as x)
    {i : Nat} {n : SwarmNode} {c : ClientCall} {d : Digest} (hi : x[i]? = some n)
    (hmode : n.cfg.mode = .writeOnly) (hc : c ∈ n.calls) (hret : c.phase = .returned (.ok d))
    (hop : c.op.writes = true ∨ 2 ≤ n.cfg.copies) :
    ∃ S : Finset Nat, n.cfg.copies - 1 ≤ S.card ∧ i ∉ S ∧ ∀ j ∈ insert i S,
      Held x j d ∧ ∀ bs y, Run (Swarm.step H resolve) (fun _ a => a.benign = true) x bs y →
        Held y j d := by
  have hinv : SwarmInv H resolve x :=
    hrun.keeps (fun ha hI hs => (hI.step ha hs).1) (SwarmInv.opened hopen hnamed)
  obtain ⟨hself, S, hcard, hout, hheld⟩ := hinv.replicated_of_returned hi hmode hc hret hop
  refine ⟨S, hcard, hout, fun j hj => ?_⟩
  have hjd : Held x j d := by
    rcases Finset.mem_insert.mp hj with rfl | hj
    · exact hself
    · exact hheld j hj
  exact ⟨hjd, fun bs y hy => hinv.held_of_run hy hjd⟩

/-! ## A node without a mirror, and a swarm at work -/

/-- The swarm of these nodes, each opened on an empty directory. -/
def openAll (cfgs : List CasConfig) : Except String Swarm :=
  cfgs.mapM fun cfg => SwarmNode.fromConfig cfg ⟨.disk, ∅, ∅, false⟩ 0 [] []

/-- The URL of node `0` is `a`, of node `1` is `b`, of node `2` is `c`. -/
def byLetter : Url → Option Nat
  | ['a'] => some 0
  | ['b'] => some 1
  | ['c'] => some 2
  | _ => none

theorem LocalCas.Sound.empty (H : HashFn) : (⟨.disk, ∅, ∅, false⟩ : LocalCas).Sound H := by
  intro d hbad
  obtain ⟨-, b, hb, -⟩ := LocalCas.verify_eq_ok_false.mp hbad
  cases hb

/-- Node `i` is opened from the `i`th configuration. -/
theorem openAll_ok {cfgs : List CasConfig} {x : Swarm} (h : openAll cfgs = .ok x) {i : Nat}
    {n : SwarmNode} (hi : x[i]? = some n) : ∃ cfg, cfgs[i]? = some cfg ∧ n.cfg = cfg ∧
      SwarmNode.fromConfig cfg ⟨.disk, ∅, ∅, false⟩ 0 [] [] = .ok n := by
  induction cfgs generalizing x i with
  | nil => cases h; cases hi
  | cons cfg cfgs ih =>
    simp only [openAll, List.mapM_cons, bind, Except.bind] at h
    split at h
    · cases h
    · next m hm =>
      split at h
      · cases h
      · next ms hms =>
        cases h
        cases i with
        | zero =>
          cases hi
          obtain ⟨_, _, _, _, -, -, -, -, rfl⟩ := SwarmNode.fromConfig_ok hm
          exact ⟨cfg, rfl, rfl, hm⟩
        | succ i => exact ih hms hi

/-- Nodes opened on empty directories. -/
theorem openAll_opened (H : HashFn) {cfgs : List CasConfig} {x : Swarm} (h : openAll cfgs = .ok x)
    (hdisk : ∀ cfg ∈ cfgs, cfg.backend = .disk) : ∀ n ∈ x, n.Opened H := by
  intro n hn
  obtain ⟨i, hi⟩ := List.getElem?_of_mem hn
  obtain ⟨cfg, hcfg, rfl, hfrom⟩ := openAll_ok h hi
  exact ⟨_, _, _, _, hfrom, hdisk _ (List.mem_of_getElem? hcfg), .empty H⟩

theorem openAll_named {resolve : Url → Option Nat} {cfgs : List CasConfig} {x : Swarm}
    (h : openAll cfgs = .ok x)
    (hnamed : ∀ (i : Nat) (cfg : CasConfig), cfgs[i]? = some cfg → Named resolve i cfg) :
    ∀ (i : Nat) (n : SwarmNode), x[i]? = some n → Named resolve i n.cfg := by
  intro i n hi
  obtain ⟨cfg, hcfg, rfl, -⟩ := openAll_ok h hi
  exact hnamed i n.cfg hcfg

/-- With `replication_factor = 1`, `ensure_replicated` answers `Ok` for a blob nobody has. -/
theorem ensure_replicated_unheld :
    ∃ x₀ x n, openAll [smallNode .writeOnly (some 1) ['a'] []] = .ok x₀ ∧
      run (Swarm.step .short byLetter) (fun _ a => a.benign = true) x₀
        [.call 0 (.ensureReplicated (.compute .short [1])), .client 0 0 .next] = some x ∧
      x[0]? = some n ∧ n.writeOnly = true ∧
      n.calls = [⟨.ensureReplicated (.compute .short [1]),
        .returned (.ok (.compute .short [1]))⟩] ∧
      n.has (.compute .short [1]) = false := by
  obtain ⟨x, hx, hP⟩ : ∃ x, run (Swarm.step .short byLetter) (fun _ a => a.benign = true)
      ((openAll [smallNode .writeOnly (some 1) ['a'] []]).toOption.getD [])
        [.call 0 (.ensureReplicated (.compute .short [1])), .client 0 0 .next] = some x ∧
      (x[0]?.any fun n => n.writeOnly = true ∧
        n.calls = [⟨.ensureReplicated (.compute .short [1]),
          .returned (.ok (.compute .short [1]))⟩] ∧
        n.has (.compute .short [1]) = false) = true :=
    run_exists (by decide +kernel)
  obtain ⟨n, hn, hP⟩ := (Option.any_eq_true _ _).mp hP
  exact ⟨_, x, n, rfl, hx, hn, of_decide_eq_true hP⟩

/-- `a` writes a blob; `c` takes it, but turns out to be `lru`; an answer of `b` is lost; `b` takes
the blob and confirms it. -/
def writesThrough : List SwarmAct :=
  [.call 0 (.putKeyed (.compute .short [1])), .store 0 (.write 0 (.decide false)),
    .store 0 (.write 0 (.read [1])), .store 0 (.write 0 .load), .store 0 (.write 0 .settle),
    .store 0 (.write 0 (.read [])), .store 0 (.write 0 .load), .store 0 (.write 0 .settle),
    .store 0 (.write 0 .publish), .store 0 (.write 0 .account), .store 0 (.write 0 .release),
    .store 0 (.write 0 (.afterWrite 0)), .store 0 (.write 0 .ret), .client 0 0 .next,
    .client 0 0 (.head true), .client 0 0 (.put true), .store 2 (.write 0 (.decide false)),
    .store 2 (.write 0 (.read [1])), .store 2 (.write 0 (.read [])), .store 2 (.write 0 .publish),
    .client 0 0 (.reply true), .client 0 0 (.head true),
    .client 0 0 (.head false), .client 0 0 (.put true), .store 1 (.write 0 (.decide false)),
    .store 1 (.write 0 (.read [1])), .store 1 (.write 0 .load), .store 1 (.write 0 .settle),
    .store 1 (.write 0 (.read [])), .store 1 (.write 0 .load), .store 1 (.write 0 .settle),
    .store 1 (.write 0 .publish), .client 0 0 (.reply true), .client 0 0 (.head true),
    .client 0 0 .next]

/-- The node that runs `writesThrough`, the peer that confirms, and the one that is mislabelled. -/
def threeNodes : List CasConfig :=
  [smallNode .writeOnly (some 2) ['a'] [⟨['a'], true⟩, ⟨['c'], true⟩, ⟨['b', '/'], true⟩],
    smallNode .writeOnly (some 1) ['b'] [], smallNode .lru none ['c'] []]

/-- A swarm at work: the write is acknowledged, and the peer that took it is restarted. -/
theorem acknowledged_copies_kept_restart :
    ∃ x₀ x y n, openAll threeNodes = .ok x₀ ∧
      run (Swarm.step .short byLetter) (fun _ a => a.benign = true) x₀ writesThrough = some x ∧
      x[0]? = some n ∧ ⟨.putKeyed (.compute .short [1]),
        .returned (.ok (.compute .short [1]))⟩ ∈ n.calls ∧
      run (Swarm.step .short byLetter) (fun _ a => a.benign = true) x
        [.restart 1 9 [⟨.compute .short [1], 1⟩] []] = some y ∧
      ∃ S : Finset Nat, 1 ≤ S.card ∧ 0 ∉ S ∧ ∀ j ∈ insert 0 S, Held y j (.compute .short [1]) := by
  have hopen : openAll threeNodes = .ok ((openAll threeNodes).toOption.getD []) := rfl
  generalize hx₀ : (openAll threeNodes).toOption.getD [] = x₀ at hopen
  obtain ⟨x, hx, hn, hy⟩ : ∃ x, run (Swarm.step .short byLetter) (fun _ a => a.benign = true) x₀
        writesThrough = some x ∧
      (x[0]?.any fun n => n.cfg.mode = .writeOnly ∧ n.cfg.copies = 2 ∧
        ⟨.putKeyed (.compute .short [1]), .returned (.ok (.compute .short [1]))⟩ ∈ n.calls) = true ∧
      (run (Swarm.step .short byLetter) (fun _ a => a.benign = true) x
        [.restart 1 9 [⟨.compute .short [1], 1⟩] []]).isSome = true := by
    rw [← hx₀]
    exact run_exists (by decide +kernel)
  obtain ⟨n, hn, hP⟩ := (Option.any_eq_true _ _).mp hn
  obtain ⟨hmode, hcopies, hcall⟩ := of_decide_eq_true hP
  obtain ⟨y, hy⟩ := Option.isSome_iff_exists.mp hy
  have hnodes : ∀ m ∈ x₀, m.Opened .short := openAll_opened .short hopen (by decide)
  have hnamed : ∀ (i : Nat) (m : SwarmNode), x₀[i]? = some m → Named byLetter i m.cfg := by
    refine openAll_named hopen fun i cfg hcfg => ?_
    match i with
    | 0 => cases hcfg; exact ⟨by decide, by decide⟩
    | 1 => cases hcfg; exact ⟨by decide, by decide⟩
    | 2 => cases hcfg; exact ⟨by decide, by decide⟩
  obtain ⟨S, hcard, hout, hheld⟩ := acknowledged_copies_kept hnodes hnamed (run_sound hx) hn hmode
    hcall rfl (.inl rfl)
  rw [hcopies] at hcard
  exact ⟨x₀, x, y, n, hopen, hx, hn, hcall, hy, S, hcard, hout,
    fun j hj => (hheld j hj).2 _ y (run_sound hy)⟩

end NessieStore
