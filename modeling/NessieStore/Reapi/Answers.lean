import NessieStore.Reapi.Face
import NessieStore.Swarm.Told

/-!
# An answer that spares an upload

Four answers tell a client that it need not send a blob, or need not send it again: the response to a
`ByteStream.Write`, an item of `BatchUpdateBlobs` with status `OK`, a `QueryWriteStatus` that is
complete, and a `FindMissingBlobs` that does not list the blob (`Request.Vouches`). The first three
come out of a `put_keyed` or an `ensure_replicated` and stand for `R` copies in every run.

`FindMissingBlobs` asks only `has`, and the node holds a blob from the local half of an upload on. An
upload that failed for want of peers leaves that copy behind (`missing_blob_spared`). What the answer
needs is that the blob was acknowledged on this node before: `acknowledged` watches a run and
remembers which blobs were, and `Spares` is the condition on the step that asks.
-/

set_option autoImplicit false

namespace NessieStore.Reapi

open Lib

/-! ## What an answer says -/

section Vouches

variable (cfg : Config)

/-- The item is answered `OK` and names `d`. -/
def BatchResponse.Vouches (r : BatchResponse) (d : NessieStore.Digest) : Prop :=
  r.outcome = .ok () ∧ ∃ g, r.digest = some g ∧ toNative cfg.debug g = .ok d

/-- By this answer the client may leave out the upload of `d`, or is done with it. -/
def Request.Vouches : Request → Answer → NessieStore.Digest → Prop
  | .write stream, .writeResponse _, d =>
    ∃ body size, writeTarget cfg.debug stream = .ok (d, body, size)
  | .queryWriteStatus resourceName, .writeStatus _ true, d =>
    ∃ size, queryTarget cfg.debug resourceName = .ok (d, size)
  | .batchUpdateBlobs _, .batchResponse responses, d => ∃ r ∈ responses, r.Vouches cfg d
  | .findMissingBlobs blobDigests, .missing missing, d =>
    ∃ g ∈ blobDigests, toNative cfg.debug g = .ok d ∧ g ∉ missing
  | _, _, _ => False

def Request.isFind : Request → Bool
  | .findMissingBlobs _ => true
  | _ => false

variable {cfg}

theorem itemTarget_ok {item : BatchItem} {d : NessieStore.Digest}
    (h : itemTarget cfg.debug item = .ok d) :
    ∃ g, item.digest = some g ∧ toNative cfg.debug g = .ok d := by
  unfold itemTarget at h
  split at h
  · cases h
  · split at h
    · cases h
    · next g hg =>
      split at h
      · cases h
      · exact ⟨g, hg, h⟩

end Vouches

/-! ## What stands behind a call -/

/-- If node `i` is `write_only`, it and `R - 1` others hold `d`. -/
def Copies (x : Swarm) (i : Nat) (d : NessieStore.Digest) : Prop :=
  ∀ n, x[i]? = some n → n.cfg.mode = .writeOnly → Replicated x i d (n.cfg.copies - 1)

/-- If node `i` is `write_only`, it holds `d`. -/
def Here (x : Swarm) (i : Nat) (d : NessieStore.Digest) : Prop :=
  ∀ n, x[i]? = some n → n.cfg.mode = .writeOnly → Held x i d

/-- The `k`th call on node `i` is this one. -/
def Waits (x : Swarm) (i k : Nat) (op : ClientOp) : Prop :=
  ∃ n c, x[i]? = some n ∧ n.calls[k]? = some c ∧ c.op = op

/-- What a change of the swarm keeps for the face of node `i`. -/
structure Keeps (x y : Swarm) (i : Nat) : Prop where
  held : ∀ j d, Held x j d → Held y j d
  cfg : ∀ n', y[i]? = some n' → ∃ n, x[i]? = some n ∧ n'.cfg = n.cfg

theorem Copies.mono {x y : Swarm} {i : Nat} {d : NessieStore.Digest} (h : Copies x i d)
    (hk : Keeps x y i) : Copies y i d := by
  intro n' hn' hmode
  obtain ⟨n, hn, hcfg⟩ := hk.cfg n' hn'
  rw [hcfg] at hmode ⊢
  exact (h n hn hmode).mono hk.held

theorem Here.mono {x y : Swarm} {i : Nat} {d : NessieStore.Digest} (h : Here x i d)
    (hk : Keeps x y i) : Here y i d := by
  intro n' hn' hmode
  obtain ⟨n, hn, hcfg⟩ := hk.cfg n' hn'
  rw [hcfg] at hmode
  exact hk.held i d (h n hn hmode)

section Backed

variable (cfg : Config) (strict : Prop) (x : Swarm) (i : Nat)

/-- What stands behind a call of request `req` on the face of node `i`. When `strict`, also behind a
`FindMissingBlobs`. -/
def Phase.Backed (req : Request) : Phase → Prop
  | .writeReady d body size =>
    ∃ stream, req = .write stream ∧ writeTarget cfg.debug stream = .ok (d, body, size)
  | .writing d size k =>
    (∃ stream body, req = .write stream ∧ writeTarget cfg.debug stream = .ok (d, body, size)) ∧
      Waits x i k (.putKeyed d)
  | .probing d size =>
    ∃ name, req = .queryWriteStatus name ∧ queryTarget cfg.debug name = .ok (d, size)
  | .present d size =>
    (∃ name, req = .queryWriteStatus name ∧ queryTarget cfg.debug name = .ok (d, size)) ∧ Here x i d
  | .ensuring d size k =>
    (∃ name, req = .queryWriteStatus name ∧ queryTarget cfg.debug name = .ok (d, size)) ∧
      Here x i d ∧ Waits x i k (.ensureReplicated d)
  | .updating _ done =>
    (∃ items, req = .batchUpdateBlobs items) ∧ ∀ r ∈ done, ∀ d, r.Vouches cfg d → Copies x i d
  | .updatingOne item d k _ done =>
    ((∃ items, req = .batchUpdateBlobs items) ∧ ∀ r ∈ done, ∀ d, r.Vouches cfg d → Copies x i d) ∧
      itemTarget cfg.debug item = .ok d ∧ Waits x i k (.putKeyed d)
  | .finding todo missing =>
    ∃ gs, req = .findMissingBlobs gs ∧ (strict → ∀ g ∈ gs, g ∈ todo ∨ g ∈ missing ∨
      ∀ d, toNative cfg.debug g = .ok d → Copies x i d)
  | .answered a => strict ∨ req.isFind = false → ∀ d, req.Vouches cfg a d → Copies x i d
  | .refused _ | .lost => True

end Backed

section Steps

variable {cfg : Config} {strict : Prop} {x y : Swarm} {i : Nat} {req : Request}

theorem Phase.Backed.enter (req : Request) :
    (req.enter cfg).Backed cfg strict x i req := by
  cases req with
  | write stream =>
    cases h : writeTarget cfg.debug stream with
    | ok target =>
      simp only [Request.enter, h]
      exact ⟨stream, rfl, h⟩
    | error s =>
      simp only [Request.enter, h]
      trivial
  | queryWriteStatus name =>
    cases h : queryTarget cfg.debug name with
    | ok target =>
      simp only [Request.enter, h]
      exact ⟨name, rfl, h⟩
    | error s =>
      simp only [Request.enter, h]
      trivial
  | batchUpdateBlobs items =>
    simp only [Request.enter]
    split
    · trivial
    · exact ⟨⟨items, rfl⟩, by simp⟩
  | findMissingBlobs gs => exact ⟨gs, rfl, fun _ g hg => .inl hg⟩

/-- What stands behind a call holds on while the node goes on. -/
theorem Phase.Backed.mono {ph : Phase} (h : ph.Backed cfg strict x i req) (hk : Keeps x y i)
    (hwait : ∀ k op, Waits x i k op → Waits y i k op) : ph.Backed cfg strict y i req := by
  cases ph with
  | writeReady d body size => exact h
  | writing d size k => exact ⟨h.1, hwait _ _ h.2⟩
  | probing d size => exact h
  | present d size => exact ⟨h.1, h.2.mono hk⟩
  | ensuring d size k => exact ⟨h.1, h.2.1.mono hk, hwait _ _ h.2.2⟩
  | updating todo done => exact ⟨h.1, fun r hr d hd => (h.2 r hr d hd).mono hk⟩
  | updatingOne item d k todo done =>
    exact ⟨⟨h.1.1, fun r hr d hd => (h.1.2 r hr d hd).mono hk⟩, h.2.1, hwait _ _ h.2.2⟩
  | finding todo missing =>
    obtain ⟨gs, hreq, hall⟩ := h
    refine ⟨gs, hreq, fun hs g hg => ?_⟩
    rcases hall hs g hg with htodo | hmissing | hcopies
    · exact .inl htodo
    · exact .inr (.inl hmissing)
    · exact .inr (.inr fun d hd => (hcopies d hd).mono hk)
  | answered a => exact fun hs d hd => (h hs d hd).mono hk
  | refused s => trivial
  | lost => trivial

/-- A call that the node's restart cut off stands for nothing; an answer that is out stays true. -/
theorem Call.backed_crash {c : Call} (h : c.phase.Backed cfg strict x c.node c.request)
    (hk : Keeps x y c.node) : c.crash.phase.Backed cfg strict y c.node c.request := by
  obtain ⟨node, request, phase⟩ := c
  cases phase with
  | answered a => exact fun hs d hd => (h hs d hd).mono hk
  | _ => trivial

end Steps

/-! ## What the node's calls return -/

section Returned

variable {H : HashFn} {resolve : Url → Option Nat} {x : Swarm} {i : Nat}

/-- A call that the face waits for has returned `Ok`: it is the blob's, and its copies are there. -/
theorem copies_of_outcome (hinv : SwarmInv H resolve x) (htold : ∀ n ∈ x, n.Told) {n : SwarmNode}
    (hi : x[i]? = some n) {k : Nat} {op : ClientOp} (hwait : Waits x i k op)
    {d d' : NessieStore.Digest} (hop : op.digest? = some d) (hout : outcome n k = some (.ok d'))
    (hmode : n.cfg.mode = .writeOnly) (hcount : op.writes = true ∨ 2 ≤ n.cfg.copies) :
    Replicated x i d (n.cfg.copies - 1) := by
  obtain ⟨m, c, hm, hk, rfl⟩ := hwait
  cases hi.symm.trans hm
  unfold outcome at hout
  rw [hk] at hout
  obtain ⟨op, phase⟩ := c
  split at hout
  · next out heq =>
    cases heq
    cases hout
    have hmem := List.mem_of_getElem? hk
    obtain rfl : d' = d := htold n (List.mem_of_getElem? hi) _ hmem d hop
    exact hinv.replicated_of_returned hi hmode hmem rfl hcount
  · cases hout

/-- With `R = 1` the node's own copy is all there is. -/
theorem replicated_alone {d : NessieStore.Digest} {n : SwarmNode} (h : Held x i d)
    (hone : ¬2 ≤ n.cfg.copies) : Replicated x i d (n.cfg.copies - 1) :=
  ⟨h, ∅, by rw [Finset.card_empty]; omega, Finset.notMem_empty i,
    fun _ hj => absurd hj (Finset.notMem_empty _)⟩

theorem here_of_has {d : NessieStore.Digest} (hinv : SwarmInv H resolve x) {n : SwarmNode}
    (hi : x[i]? = some n) (hhas : n.has d = true) : Here x i d := by
  intro m hm hmode
  cases hi.symm.trans hm
  exact ⟨n, hi, (hinv.nodes i n hi).configured.writeOnly_iff.mpr hmode, hhas⟩

end Returned

/-! ## Steps -/

section Begin

variable {H : HashFn} {resolve : Url → Option Nat} {x : Swarm} {i : Nat} {n : SwarmNode}

/-- The call that the face makes on the node. -/
def Ask.op : Ask → Option ClientOp
  | .nothing => none
  | .putKeyed d _ => some (.putKeyed d)
  | .ensureReplicated d => some (.ensureReplicated d)

theorem Ask.begin_continues (n : SwarmNode) (ask : Ask) : n.Continues (ask.begin n) := by
  cases ask with
  | nothing => exact .refl n
  | putKeyed d body =>
    refine SwarmNode.continues_append fun d' hd' => ?_
    cases hd'
    exact ⟨⟨d, .body body, .entered⟩, List.getElem?_concat_length, rfl⟩
  | ensureReplicated d => exact n.continues_accept (.ensureReplicated d)

theorem Ask.begin_inv (h : n.Inv H) (ask : Ask) : (ask.begin n).Inv H ∧ n.Grows (ask.begin n) := by
  cases ask with
  | nothing => exact ⟨h, ⟨rfl, rfl, rfl, rfl, fun _ _ => id⟩⟩
  | putKeyed d body =>
    refine h.begin (fun p hp d' => ?_) _
    cases List.mem_singleton.mp hp
    simp [Putter.wrote, NessieStore.Phase.wrote, NessieStore.Phase.landed]
  | ensureReplicated d => exact h.accept (.ensureReplicated d)

/-- A call of the face on its node is a call like any other. -/
theorem begin_swarm (h : SwarmInv H resolve x) (hi : x[i]? = some n) (ask : Ask) :
    SwarmInv H resolve (x.set i (ask.begin n)) ∧
      ∀ j d, Held x j d → Held (x.set i (ask.begin n)) j d := by
  refine h.set hi (ask.begin_inv (h.nodes i n hi)) fun _ c hc => ?_
  cases ask with
  | nothing => exact .inl hc
  | putKeyed d body =>
    rcases List.mem_append.mp hc with hold | hnew
    · exact .inl hold
    · cases List.mem_singleton.mp hnew
      exact .inr trivial
  | ensureReplicated d =>
    rcases List.mem_append.mp hc with hold | hnew
    · exact .inl hold
    · cases List.mem_singleton.mp hnew
      exact .inr rfl

/-- The face finds its call under the next number. -/
theorem waits_begin (hi : x[i]? = some n) {ask : Ask} {op : ClientOp} (hop : ask.op = some op) :
    Waits (x.set i (ask.begin n)) i n.calls.length op := by
  have hself : (x.set i (ask.begin n))[i]? = some (ask.begin n) :=
    List.getElem?_set_self (List.getElem?_eq_some_iff.mp hi).1
  cases ask with
  | nothing => cases hop
  | putKeyed d body =>
    cases hop
    exact ⟨_, _, hself, List.getElem?_concat_length, rfl⟩
  | ensureReplicated d =>
    cases hop
    exact ⟨_, _, hself, List.getElem?_concat_length, rfl⟩

end Begin

section Step

variable {H : HashFn} {resolve : Url → Option Nat} {cfg : Config} {strict : Prop} {x y : Swarm}
  {i : Nat} {req : Request}

theorem keeps_of_pointwise {r : Option Nat} (h : Pointwise (SwarmNode.Follows r) x y)
    (hheld : ∀ j d, Held x j d → Held y j d) (i : Nat) : Keeps x y i where
  held := hheld
  cfg n' hn' := by
    obtain ⟨n, hn, hfollows⟩ := h.exists_left hn'
    exact ⟨n, hn, hfollows.cfg⟩

/-- A node that was not restarted has its calls under their numbers. -/
theorem waits_of_pointwise {r : Option Nat} (h : Pointwise (SwarmNode.Follows r) x y) (hr : r ≠ some i)
    {k : Nat} {op : ClientOp} (hw : Waits x i k op) : Waits y i k op := by
  obtain ⟨n, c, hn, hc, hop⟩ := hw
  obtain ⟨n', hn', hfollows⟩ := h.exists_right hn
  obtain ⟨c', hc', hop'⟩ := (hfollows.goesOn.resolve_left hr).ops k c hc
  exact ⟨n', c', hn', hc', hop'.trans hop⟩

/-- One step of a call on a face. The store is asked in the swarm as it is (`x`), and what the call
asks of the node begins in the next one (`y`). -/
theorem Phase.Backed.step (hinv : SwarmInv H resolve x) (htold : ∀ n ∈ x, n.Told) {n : SwarmNode}
    (hi : x[i]? = some n) {ph ph' : Phase} (h : ph.Backed cfg strict x i req) {ev : Event} {ask : Ask}
    (hs : ph.step cfg n ev = some (ph', ask)) (hk : Keeps x y i)
    (hwait : ∀ op, ask.op = some op → Waits y i n.calls.length op)
    (hfind : strict → ∀ g todo missing d, ev = .next → ph = .finding (g :: todo) missing →
      toNative cfg.debug g = .ok d → n.has d = true → Copies x i d) :
    ph'.Backed cfg strict y i req := by
  unfold Phase.step at hs
  split at hs
  · -- the body of a `Write` is there
    cases hs
    obtain ⟨stream, hreq, htarget⟩ := h
    exact ⟨⟨stream, _, hreq, htarget⟩, hwait _ rfl⟩
  · next d size k =>
    obtain ⟨out, hout, hph⟩ := Option.map_eq_some_iff.mp hs
    cases hph
    obtain ⟨⟨stream, body, rfl, htarget⟩, hw⟩ := h
    cases out with
    | error e => trivial
    | ok d' =>
      rintro - e ⟨body', size', hvouch⟩
      cases htarget.symm.trans hvouch
      have hcopies : Copies x i d := fun m hm hmode => by
        cases hi.symm.trans hm
        exact copies_of_outcome hinv htold hi hw rfl hout hmode (.inl rfl)
      exact hcopies.mono hk
  · -- `QueryWriteStatus` asks the store
    split at hs
    · next hhas =>
      cases hs
      exact ⟨h, (here_of_has hinv hi hhas).mono hk⟩
    · cases hs
      obtain ⟨name, rfl, -⟩ := h
      intro _ d hv
      exact hv.elim
  · cases hs; trivial
  · cases hs
    exact ⟨h.1, h.2.mono hk, hwait _ rfl⟩
  · next d size k =>
    obtain ⟨out, hout, hph⟩ := Option.map_eq_some_iff.mp hs
    cases hph
    obtain ⟨⟨name, rfl, htarget⟩, hhere, hw⟩ := h
    cases out with
    | error e => trivial
    | ok d' =>
      rintro - e ⟨size', hvouch⟩
      cases htarget.symm.trans hvouch
      have hcopies : Copies x i d := fun m hm hmode => by
        cases hi.symm.trans hm
        by_cases htwo : 2 ≤ n.cfg.copies
        · exact copies_of_outcome hinv htold hi hw rfl hout hmode (.inr htwo)
        · exact replicated_alone (hhere n hi hmode) htwo
      exact hcopies.mono hk
  · -- the batch is through
    cases hs
    obtain ⟨⟨items, rfl⟩, hdone⟩ := h
    rintro - d ⟨r, hr, hd⟩
    exact (hdone r hr d hd).mono hk
  · next item todo done =>
    obtain ⟨hreq, hdone⟩ := h
    split at hs
    · next d htarget =>
      cases hs
      exact ⟨⟨hreq, fun r hr e he => (hdone r hr e he).mono hk⟩, htarget, hwait _ rfl⟩
    · cases hs
      refine ⟨hreq, fun r hr e he => ?_⟩
      rcases List.mem_append.mp hr with hold | hnew
      · exact (hdone r hold e he).mono hk
      · cases List.mem_singleton.mp hnew
        exact absurd he.1 (by simp)
  · next item d k todo done =>
    obtain ⟨out, hout, hph⟩ := Option.map_eq_some_iff.mp hs
    cases hph
    obtain ⟨⟨hreq, hdone⟩, htarget, hw⟩ := h
    refine ⟨hreq, fun r hr e he => ?_⟩
    rcases List.mem_append.mp hr with hold | hnew
    · exact (hdone r hold e he).mono hk
    · cases List.mem_singleton.mp hnew
      cases out with
      | error err => exact absurd he.1 (by simp)
      | ok d' =>
        obtain ⟨g, hg, hnative⟩ := itemTarget_ok htarget
        obtain ⟨g', hg', hnative'⟩ := he.2
        cases hg.symm.trans hg'
        cases hnative.symm.trans hnative'
        have hcopies : Copies x i d := fun m hm hmode => by
          cases hi.symm.trans hm
          exact copies_of_outcome hinv htold hi hw rfl hout hmode (.inl rfl)
        exact hcopies.mono hk
  · -- every digest was asked for
    cases hs
    obtain ⟨gs, rfl, hall⟩ := h
    rintro hstrict d ⟨g, hg, hnative, hmissing⟩
    have hyes : strict := hstrict.resolve_right (by simp [Request.isFind])
    rcases hall hyes g hg with htodo | hlisted | hcopies
    · cases htodo
    · exact absurd hlisted hmissing
    · exact (hcopies d hnative).mono hk
  · next g todo missing =>
    obtain ⟨gs, hreq, hall⟩ := h
    split at hs
    · next d hnative =>
      cases hs
      refine ⟨gs, hreq, fun hyes g' hg' => ?_⟩
      rcases hall hyes g' hg' with htodo | hlisted | hcopies
      · rcases List.mem_cons.mp htodo with rfl | htodo
        · by_cases hhas : n.has d = true
          · refine .inr (.inr fun e he => ?_)
            cases hnative.symm.trans he
            exact (hfind hyes g' todo missing d rfl rfl hnative hhas).mono hk
          · rw [if_neg hhas]
            exact .inr (.inl (by simp))
        · exact .inl htodo
      · refine .inr (.inl ?_)
        split
        · exact hlisted
        · exact List.mem_append_left _ hlisted
      · exact .inr (.inr fun e he => (hcopies e he).mono hk)
    · cases hs; trivial
  · split at hs
    · cases hs; trivial
    · cases hs
  · cases hs

end Step

/-! ## Runs -/

/-- Everything but files going bad. -/
def Act.benign : Act → Bool
  | .swarm a => a.benign
  | _ => true

section Runs

variable (cfg : Config) (H : HashFn) (resolve : Url → Option Nat)

/-- The node that a `FindMissingBlobs` asks next, and the blob it asks for. -/
def Faces.probe (f : Faces) : Act → Option (Nat × NessieStore.Digest)
  | .step m .next =>
    match f.calls[m]? with
    | some ⟨i, _, .finding (g :: _) _⟩ => (toNative cfg.debug g).toOption.map fun d => (i, d)
    | _ => none
  | _ => none

/-- The blobs that were acknowledged, each with the node: a `put` or `put_keyed` on it returned
`Ok`, or an `ensure_replicated` where `R` is at least two. -/
def acknowledged (f : Faces) : Act → List (Nat × NessieStore.Digest) → List (Nat × NessieStore.Digest)
  | .swarm (.client i k ev), o =>
    match f.swarm[i]? with
    | none => o
    | some n =>
      match n.calls[k]? with
      | none => o
      | some c =>
        match c.phase.step H n (f.swarm.holdsDurably resolve) ev with
        | some (.returned (.ok d), _) =>
          if c.op.writes = true ∨ 2 ≤ n.cfg.copies then (i, d) :: o else o
        | _ => o
  | _, o => o

/-- A `FindMissingBlobs` that asks a `write_only` node with `R` at least two for a blob the node holds
asks for one that was acknowledged there. -/
def Spares (y : Faces × List (Nat × NessieStore.Digest)) (a : Act) : Prop :=
  match y.1.probe cfg a with
  | none => True
  | some (i, d) =>
    match y.1.swarm[i]? with
    | none => True
    | some n => n.cfg.mode = .writeOnly → 2 ≤ n.cfg.copies → n.has d = true → (i, d) ∈ y.2

instance (y : Faces × List (Nat × NessieStore.Digest)) (a : Act) : Decidable (Spares cfg y a) := by
  unfold Spares
  split
  · exact instDecidableTrue
  · split
    · exact instDecidableTrue
    · infer_instance

/-- What holds of faces over a swarm at any moment. -/
structure Standing (strict : Prop) (f : Faces) : Prop where
  swarm : SwarmInv H resolve f.swarm
  told : ∀ n ∈ f.swarm, n.Told
  calls : ∀ c ∈ f.calls, c.phase.Backed cfg strict f.swarm c.node c.request

variable {cfg H resolve} {strict : Prop} {f f' : Faces}

theorem Faces.probe_finding {m : Nat} {c : Call} (hc : f.calls[m]? = some c) {g : Digest}
    {todo missing : List Digest} (hph : c.phase = .finding (g :: todo) missing)
    {d : NessieStore.Digest} (hd : toNative cfg.debug g = .ok d) :
    f.probe cfg (.step m .next) = some (c.node, d) := by
  obtain ⟨node, request, phase⟩ := c
  cases hph
  simp only [Faces.probe, hc, hd, Except.toOption, Option.map_some]

/-- The step lemma. A `FindMissingBlobs` needs that what it finds has its copies. -/
theorem Standing.step (h : Standing cfg H resolve strict f) {a : Act} (ha : a.benign = true)
    (hfind : strict → ∀ i d n, f.probe cfg a = some (i, d) → f.swarm[i]? = some n →
      n.has d = true → Copies f.swarm i d)
    (hs : f.step cfg H resolve a = some f') :
    Standing cfg H resolve strict f' ∧ ∀ i, Keeps f.swarm f'.swarm i := by
  cases a with
  | swarm a =>
    obtain ⟨y, hy, rfl⟩ := Option.map_eq_some_iff.mp hs
    obtain ⟨hinv, hheld⟩ := h.swarm.step ha hy
    have hfollows := Swarm.follows_step hy
    have hkeeps := keeps_of_pointwise hfollows hheld
    refine ⟨⟨hinv, fun n' hn' => ?_, fun c' hc' => ?_⟩, hkeeps⟩
    · obtain ⟨i, hi⟩ := List.getElem?_of_mem hn'
      obtain ⟨n, hn, hnext⟩ := hfollows.exists_left hi
      exact hnext.told (h.told n (List.mem_of_getElem? hn))
    · obtain ⟨c, hc, rfl⟩ := List.mem_map.mp hc'
      have hback := h.calls c hc
      split
      · have hnode : c.crash.node = c.node ∧ c.crash.request = c.request := by
          unfold Call.crash
          split <;> exact ⟨rfl, rfl⟩
        rw [hnode.1, hnode.2]
        exact Call.backed_crash hback (hkeeps c.node)
      · next hup => exact hback.mono (hkeeps c.node) fun k op => waits_of_pointwise hfollows hup
  | call node request =>
    cases hs
    refine ⟨⟨h.swarm, h.told, fun c hc => ?_⟩, fun i => ⟨fun _ _ => id, fun n hn => ⟨n, hn, rfl⟩⟩⟩
    rcases List.mem_append.mp hc with hold | hnew
    · exact h.calls c hold
    · cases List.mem_singleton.mp hnew
      exact .enter request
  | step m ev =>
    obtain ⟨c, hm, hrest⟩ := Option.bind_eq_some_iff.mp hs
    obtain ⟨n, hn, hmap⟩ := Option.bind_eq_some_iff.mp hrest
    obtain ⟨⟨ph, ask⟩, hph, rfl⟩ := Option.map_eq_some_iff.mp hmap
    obtain ⟨hinv, hheld⟩ := begin_swarm h.swarm hn ask
    have hfollows : Pointwise (SwarmNode.Follows none) f.swarm (f.swarm.set c.node (ask.begin n)) :=
      .set (fun i n => (SwarmNode.Continues.refl n).follows _ i) hn
        ((ask.begin_continues n).follows _ c.node)
    have hkeeps := keeps_of_pointwise hfollows hheld
    refine ⟨⟨hinv, fun n' hn' => ?_, fun c' hc' => ?_⟩, hkeeps⟩
    · rcases List.mem_or_eq_of_mem_set hn' with hold | rfl
      · exact h.told n' hold
      · exact (ask.begin_continues n).told (h.told n (List.mem_of_getElem? hn))
    · rcases List.mem_or_eq_of_mem_set hc' with hold | rfl
      · exact (h.calls c' hold).mono (hkeeps c'.node) fun k op =>
          waits_of_pointwise hfollows (by simp)
      · refine (h.calls c (List.mem_of_getElem? hm)).step h.swarm h.told hn hph (hkeeps c.node)
          (fun op => waits_begin hn) fun hyes g todo missing d hev hfinding hd hhas => ?_
        subst hev
        exact hfind hyes c.node d n (Faces.probe_finding hm hfinding hd) hn hhas

theorem Standing.opened {x₀ : Swarm} (hopen : ∀ n ∈ x₀, n.Opened H)
    (hnamed : ∀ (i : Nat) (n : SwarmNode), x₀[i]? = some n → Named resolve i n.cfg) :
    Standing cfg H resolve strict ⟨x₀, []⟩ where
  swarm := .opened hopen hnamed
  told n hn c hc := by
    obtain ⟨_, _, _, _, hfrom, -, -⟩ := hopen n hn
    rw [SwarmNode.calls_fromConfig hfrom] at hc
    cases hc
  calls c hc := by cases hc

/-- What is acknowledged has its copies at that moment. -/
theorem copies_of_acknowledged (h : SwarmInv H resolve f.swarm) {a : Act}
    {o : List (Nat × NessieStore.Digest)} {p : Nat × NessieStore.Digest}
    (hp : p ∈ acknowledged H resolve f a o) : p ∈ o ∨ Copies f.swarm p.1 p.2 := by
  unfold acknowledged at hp
  split at hp
  · next i k ev =>
    split at hp
    · exact .inl hp
    · next n hi =>
      split at hp
      · exact .inl hp
      · next c hk =>
        split at hp
        · next d eff hstep =>
          split at hp
          · next hop =>
            rcases List.mem_cons.mp hp with rfl | hold
            · refine .inr fun m hm hmode => ?_
              cases hi.symm.trans hm
              have hwo := (h.nodes i n hi).configured.writeOnly_iff.mpr hmode
              have hback := h.calls i n hi hwo c (List.mem_of_getElem? hk)
              exact h.replicated_of_backed hi hmode hop (hback.step h hi hwo hstep)
            · exact .inl hold
          · exact .inl hp
        · exact .inl hp
  · exact .inl hp

/-- The faces with what was acknowledged. -/
structure Spared (cfg : Config) (H : HashFn) (resolve : Url → Option Nat)
    (y : Faces × List (Nat × NessieStore.Digest)) : Prop where
  standing : Standing cfg H resolve True y.1
  acked : ∀ p ∈ y.2, Copies y.1.swarm p.1 p.2

theorem Spared.step {y z : Faces × List (Nat × NessieStore.Digest)} (h : Spared cfg H resolve y)
    {a : Act} (ha : a.benign = true) (hspares : Spares cfg y a)
    (hs : watch (Faces.step cfg H resolve) (acknowledged H resolve) y a = some z) :
    Spared cfg H resolve z := by
  obtain ⟨f, o⟩ := y
  obtain ⟨f', o'⟩ := z
  obtain ⟨hf, rfl⟩ := watch_eq_some.mp hs
  have hfind : True → ∀ i d n, f.probe cfg a = some (i, d) → f.swarm[i]? = some n →
      n.has d = true → Copies f.swarm i d := by
    intro _ i d n hprobe hi hhas m hm hmode
    cases hi.symm.trans hm
    by_cases htwo : 2 ≤ n.cfg.copies
    · simp only [Spares, hprobe, hi] at hspares
      exact h.acked _ (hspares hmode htwo hhas) n hi hmode
    · exact replicated_alone (here_of_has h.standing.swarm hi hhas n hi hmode) htwo
  obtain ⟨hstanding, hkeeps⟩ := h.standing.step ha hfind hf
  refine ⟨hstanding, fun p hp => ?_⟩
  rcases copies_of_acknowledged h.standing.swarm hp with hold | hnew
  · exact (h.acked p hold).mono (hkeeps p.1)
  · exact hnew.mono (hkeeps p.1)

end Runs

/-! ## The theorem -/

/-- The answers of the face of `write_only` nodes to the requests in `P` stand for `R` copies: this
node and others, all `write_only`. -/
def Faces.Replicated (cfg : Config) (P : Request → Prop) (f : Faces) : Prop :=
  ∀ c ∈ f.calls, P c.request → ∀ n a d, f.swarm[c.node]? = some n → n.cfg.mode = .writeOnly →
    c.phase = .answered a → c.request.Vouches cfg a d →
      ∃ S : Finset Nat, n.cfg.copies ≤ S.card ∧ c.node ∈ S ∧ ∀ j ∈ S, Held f.swarm j d

theorem Standing.replicated {cfg : Config} {H : HashFn} {resolve : Url → Option Nat} {strict : Prop}
    {f : Faces} (h : Standing cfg H resolve strict f) :
    f.Replicated cfg fun req => strict ∨ req.isFind = false := by
  intro c hc hreq n a d hn hmode hans hvouch
  have hback := h.calls c hc
  rw [hans] at hback
  obtain ⟨hself, S, hcard, hout, hheld⟩ := hback hreq d hvouch n hn hmode
  have hpos := ((h.swarm.nodes _ n hn).configured.mirror_eq hmode).1
  refine ⟨insert c.node S, ?_, Finset.mem_insert_self _ _, fun j hj => ?_⟩
  · rw [Finset.card_insert_of_notMem hout]
    omega
  · rcases Finset.mem_insert.mp hj with rfl | hj
    · exact hself
    · exact hheld j hj

/-- Whatever the swarm and its network did: a `WriteResponse`, an item with status `OK` and a
complete `QueryWriteStatus` stand for `R` copies of the blob; and where every `FindMissingBlobs`
asked for blobs that were acknowledged, or that the node does not hold, so does a blob that it does
not list. -/
theorem spared_upload_replicated {H : HashFn} {resolve : Url → Option Nat} (cfg : Config) {x₀ : Swarm}
    (hopen : ∀ n ∈ x₀, n.Opened H)
    (hnamed : ∀ (i : Nat) (n : SwarmNode), x₀[i]? = some n → Named resolve i n.cfg) :
    (∀ as f, Run (Faces.step cfg H resolve) (fun _ a => a.benign = true) ⟨x₀, []⟩ as f →
      f.Replicated cfg fun req => req.isFind = false) ∧
    ∀ as f o, Run (watch (Faces.step cfg H resolve) (acknowledged H resolve))
      (fun y a => a.benign = true ∧ Spares cfg y a) (⟨x₀, []⟩, []) as (f, o) →
      f.Replicated cfg fun _ => True := by
  constructor
  · intro as f hrun
    have hstanding : Standing cfg H resolve False f :=
      hrun.keeps (I := Standing cfg H resolve False)
        (fun ha h hs => (h.step ha (fun hno => hno.elim) hs).1) (.opened hopen hnamed)
    exact fun c hc hreq => hstanding.replicated c hc (.inr hreq)
  · intro as f o hrun
    have hspared : Spared cfg H resolve (f, o) :=
      hrun.keeps (I := Spared cfg H resolve) (fun hk h hs => h.step hk.1 hk.2 hs)
        ⟨.opened hopen hnamed, fun p hp => by cases hp⟩
    exact fun c hc _ => hspared.standing.replicated c hc (.inl trivial)

/-! ## Two nodes -/

/-- `a` is to have each blob twice, `b` is its peer. -/
def twoNodes : List CasConfig :=
  [smallNode .writeOnly (some 2) ['a'] [⟨['b'], true⟩], smallNode .writeOnly (some 1) ['b'] []]

def sampleConfig : Config := ⟨4194304, fun s => String.ofList s⟩

/-- The blob of one byte, and the client's name for it. -/
def sampleBlob : NessieStore.Digest := .computeWith .short .sha256 [1]

def sampleName : Digest := ⟨Hex.encode sampleBlob.bytes, 1⟩

/-- A client sends the blob to `a`, whose own write goes well. -/
def uploadHere : List Act :=
  [.call 0 (.batchUpdateBlobs [⟨some sampleName, [1], .identity⟩]), .step 0 .next,
    .swarm (.store 0 (.write 0 (.decide false))), .swarm (.store 0 (.write 0 (.read [1]))),
    .swarm (.store 0 (.write 0 .load)), .swarm (.store 0 (.write 0 .settle)),
    .swarm (.store 0 (.write 0 (.read []))), .swarm (.store 0 (.write 0 .load)),
    .swarm (.store 0 (.write 0 .settle)), .swarm (.store 0 (.write 0 .publish)),
    .swarm (.store 0 (.write 0 .account)), .swarm (.store 0 (.write 0 .release)),
    .swarm (.store 0 (.write 0 (.afterWrite 0))), .swarm (.store 0 (.write 0 .ret)),
    .swarm (.client 0 0 .next)]

/-- `b` takes the blob and confirms it. -/
def pushThrough : List Act :=
  [.swarm (.client 0 0 (.head true)), .swarm (.client 0 0 (.put true)),
    .swarm (.store 1 (.write 0 (.decide false))), .swarm (.store 1 (.write 0 (.read [1]))),
    .swarm (.store 1 (.write 0 .load)), .swarm (.store 1 (.write 0 .settle)),
    .swarm (.store 1 (.write 0 (.read []))), .swarm (.store 1 (.write 0 .load)),
    .swarm (.store 1 (.write 0 .settle)), .swarm (.store 1 (.write 0 .publish)),
    .swarm (.client 0 0 (.reply true)), .swarm (.client 0 0 (.head true)),
    .swarm (.client 0 0 .next)]

/-- `b` is down. -/
def pushFails : List Act :=
  [.swarm (.client 0 0 (.head false)), .swarm (.client 0 0 (.put false)),
    .swarm (.client 0 0 .next)]

/-- The client hears how its upload went and asks whether the blob is missing. -/
def asksAgain : List Act :=
  [.step 0 .next, .step 0 .next, .call 0 (.findMissingBlobs [sampleName]), .step 1 .next,
    .step 1 .next]

theorem twoNodes_named {x₀ : Swarm} (h : openAll twoNodes = .ok x₀) :
    ∀ (i : Nat) (n : SwarmNode), x₀[i]? = some n → Named byLetter i n.cfg := by
  refine openAll_named h fun i cfg hcfg => ?_
  match i with
  | 0 => cases hcfg; exact ⟨by decide, by decide⟩
  | 1 => cases hcfg; exact ⟨by decide, by decide⟩

/-- An upload that is acknowledged, and then a `FindMissingBlobs` that spares the next one. -/
theorem spared_upload_replicated_two :
    ∃ x₀ f o, openAll twoNodes = .ok x₀ ∧
      Run (watch (Faces.step sampleConfig .short byLetter) (acknowledged .short byLetter))
        (fun y a => a.benign = true ∧ Spares sampleConfig y a) (⟨x₀, []⟩, [])
        (uploadHere ++ pushThrough ++ asksAgain) (f, o) ∧
      ⟨0, .findMissingBlobs [sampleName], .answered (.missing [])⟩ ∈ f.calls ∧
      ∃ S : Finset Nat, 2 ≤ S.card ∧ 0 ∈ S ∧ ∀ j ∈ S, Held f.swarm j sampleBlob := by
  have hopen : openAll twoNodes = .ok ((openAll twoNodes).toOption.getD []) := rfl
  generalize hx₀ : (openAll twoNodes).toOption.getD [] = x₀ at hopen
  obtain ⟨⟨f, o⟩, hf, hcall, hnode⟩ : ∃ y,
      run (watch (Faces.step sampleConfig .short byLetter) (acknowledged .short byLetter))
        (fun y a => a.benign = true ∧ Spares sampleConfig y a) (⟨x₀, []⟩, [])
        (uploadHere ++ pushThrough ++ asksAgain) = some y ∧
      (⟨0, .findMissingBlobs [sampleName], .answered (.missing [])⟩ : Call) ∈ y.1.calls ∧
      (y.1.swarm[0]?.any fun n => n.cfg.mode = .writeOnly ∧ n.cfg.copies = 2) = true := by
    rw [← hx₀]
    exact run_exists (by decide +kernel)
  obtain ⟨n, hn, hP⟩ := (Option.any_eq_true _ _).mp hnode
  obtain ⟨hmode, hcopies⟩ := of_decide_eq_true hP
  have hnative : toNative sampleConfig.debug sampleName = .ok sampleBlob := by decide +kernel
  obtain ⟨S, hcard, hself, hheld⟩ := (spared_upload_replicated sampleConfig
    (openAll_opened .short hopen (by decide)) (twoNodes_named hopen)).2 _ f o (run_sound hf) _ hcall
    trivial n (.missing []) sampleBlob hn hmode rfl ⟨sampleName, by simp, hnative, by simp⟩
  rw [hcopies] at hcard
  exact ⟨x₀, f, o, hopen, run_sound hf, hcall, S, hcard, hself, hheld⟩

/-- An upload that fails because `b` is down leaves its copy on `a`, and the client that then asks
is told that nothing is missing: one node holds the blob, where there should be two. -/
theorem missing_blob_spared :
    ∃ x₀ f, openAll twoNodes = .ok x₀ ∧ (∀ n ∈ x₀, n.Opened .short) ∧
      (∀ (i : Nat) (n : SwarmNode), x₀[i]? = some n → Named byLetter i n.cfg) ∧
      Run (Faces.step sampleConfig .short byLetter) (fun _ a => a.benign = true) ⟨x₀, []⟩
        (uploadHere ++ pushFails ++ asksAgain) f ∧
      f.calls = [⟨0, .batchUpdateBlobs [⟨some sampleName, [1], .identity⟩],
          .answered (.batchResponse [⟨some sampleName, .error (.backend (.underreplicated 0 1))⟩])⟩,
        ⟨0, .findMissingBlobs [sampleName], .answered (.missing [])⟩] ∧
      ¬f.Replicated sampleConfig fun _ => True := by
  have hopen : openAll twoNodes = .ok ((openAll twoNodes).toOption.getD []) := rfl
  generalize hx₀ : (openAll twoNodes).toOption.getD [] = x₀ at hopen
  obtain ⟨f, hf, hcalls, hnode, hlen, hother⟩ : ∃ f,
      run (Faces.step sampleConfig .short byLetter) (fun _ a => a.benign = true) ⟨x₀, []⟩
        (uploadHere ++ pushFails ++ asksAgain) = some f ∧
      f.calls = [⟨0, .batchUpdateBlobs [⟨some sampleName, [1], .identity⟩],
          .answered (.batchResponse [⟨some sampleName, .error (.backend (.underreplicated 0 1))⟩])⟩,
        ⟨0, .findMissingBlobs [sampleName], .answered (.missing [])⟩] ∧
      (f.swarm[0]?.any fun n => n.cfg.mode = .writeOnly ∧ n.cfg.copies = 2) = true ∧
      f.swarm.length = 2 ∧ (f.swarm[1]?.all fun n => n.has sampleBlob = false) = true := by
    rw [← hx₀]
    exact run_exists (by decide +kernel)
  refine ⟨x₀, f, hopen, openAll_opened .short hopen (by decide), twoNodes_named hopen, run_sound hf,
    hcalls, fun hall => ?_⟩
  obtain ⟨n, hn, hP⟩ := (Option.any_eq_true _ _).mp hnode
  obtain ⟨hmode, hcopies⟩ := of_decide_eq_true hP
  have hnative : toNative sampleConfig.debug sampleName = .ok sampleBlob := by decide +kernel
  obtain ⟨S, hcard, -, hheld⟩ := hall
    ⟨0, .findMissingBlobs [sampleName], .answered (.missing [])⟩ (by simp [hcalls]) trivial n
    (.missing []) sampleBlob hn hmode rfl ⟨sampleName, by simp, hnative, by simp⟩
  have honly : S ⊆ {0} := by
    intro j hj
    obtain ⟨m, hm, -, hhas⟩ := hheld j hj
    have hlt : j < 2 := hlen ▸ (List.getElem?_eq_some_iff.mp hm).1
    match j with
    | 0 => exact Finset.mem_singleton_self 0
    | 1 =>
      rw [hm] at hother
      simp [hhas] at hother
  have hle := Finset.card_le_card honly
  rw [Finset.card_singleton] at hle
  omega

end NessieStore.Reapi
