import NessieStore.Swarm.Push
import NessieStore.Swarm.Replicated

/-!
# A push alone is a run of the swarm

`Swarm.Push` models `push_counting` as one function, `Swarm.Network` as a call whose every request
is a step. They are the same loop: whatever the function computes, the call reaches in a run of the
swarm in which nobody else moves (`pushCounting_run`). So what is said of runs holds of the
function, and a failure of the function is a failure in some run.
-/

set_option autoImplicit false

namespace NessieStore

open Lib

variable {H : HashFn} {resolve : Url → Option Nat}

/-! ## Runs of one store -/

/-- A write on its own is a run of its store. -/
theorem run_write {s t : CasStore} {w w' : Writer} {evs : List WriteEvent}
    (h : run (fun x ev => Writer.step H x.1 x.2 ev) (fun _ _ => True) (s, w) evs = some (t, w'))
    {x : Sys} (hs : x.store = s) {k : Nat} (hk : x.puts[k]? = some (.keyed w)) :
    Run (Sys.step H) (fun _ a => a.benign = true) x (evs.map (Act.write k))
      { x with store := t, puts := x.puts.set k (.keyed w') } := by
  induction evs generalizing s w x with
  | nil =>
    cases h
    rw [set_eq_self hk, ← hs]
    exact .nil x
  | cons ev evs ih =>
    rw [run, if_pos trivial] at h
    obtain ⟨⟨s₁, w₁⟩, hstep, hrest⟩ := Option.bind_eq_some_iff.mp h
    have hlt := (List.getElem?_eq_some_iff.mp hk).1
    have hmove : Sys.step H x (.write k ev) =
        some { x with store := s₁, puts := x.puts.set k (.keyed w₁) } := by
      simp only [Sys.step, stepAt, hk, Putter.step, hs]
      rw [show Writer.step H s w ev = some (s₁, w₁) from hstep]
      rfl
    have hself : (x.puts.set k (.keyed w₁))[k]? = some (.keyed w₁) := List.getElem?_set_self hlt
    have hrun := ih hrest (x := { x with store := s₁, puts := x.puts.set k (.keyed w₁) }) rfl hself
    rw [List.set_set] at hrun
    exact .cons rfl hmove hrun

/-- A run of one node's store is a run of the swarm. -/
theorem Swarm.run_store (resolve : Url → Option Nat) {a b : Sys} {as : List Act}
    (h : Run (Sys.step H) (fun _ a => a.benign = true) a as b) {x : Swarm} {j : Nat}
    {n : SwarmNode} (hj : x[j]? = some n) (hn : n.sys = a) :
    Run (Swarm.step H resolve) (fun _ a => a.benign = true) x (as.map (SwarmAct.store j))
      (x.set j { n with sys := b }) := by
  induction h generalizing x n with
  | nil s =>
    have hsame : x.set j { n with sys := s } = x := by
      rw [← hn]
      exact set_eq_self hj
    rw [hsame]
    exact .nil x
  | @cons s t u act acts hk ht _ ih =>
    have hlt := (List.getElem?_eq_some_iff.mp hj).1
    have hstep : Swarm.step H resolve x (.store j act) = some (x.set j { n with sys := t }) := by
      simp only [Swarm.step, hj, Option.bind_some, hn, ht, Option.map_some]
    have hself : (x.set j { n with sys := t })[j]? = some { n with sys := t } :=
      List.getElem?_set_self hlt
    have hrun := ih hself rfl
    rw [List.set_set] at hrun
    exact .cons hk hstep hrun

/-! ## One request -/

/-- Call `k` of node `i` stands at `phase`; the node mirrors to `target` peers and reads `source`. -/
def Standing (x : Swarm) (i k : Nat) (target : Nat) (source : LocalCas) (phase : ClientPhase) :
    Prop :=
  ∃ n c, x[i]? = some n ∧ n.calls[k]? = some c ∧ c.phase = phase ∧ n.mirror = some target ∧
    n.sys.store.inner = source

/-- Node `j` has the store `s`. -/
def Stores (x : Swarm) (j : Nat) (s : CasStore) : Prop := ∃ n, x[j]? = some n ∧ n.sys.store = s

/-- The call takes a step, which reaches no other node. -/
theorem Standing.next {x : Swarm} {i k target : Nat} {source : LocalCas} {phase phase' : ClientPhase}
    {ev : ClientEvent} (h : Standing x i k target source phase)
    (hstep : ∀ n : SwarmNode, n.mirror = some target → n.sys.store.inner = source →
      phase.step H n (x.holdsDurably resolve) ev = some (phase', .nothing)) :
    ∃ y, Swarm.step H resolve x (.client i k ev) = some y ∧ Standing y i k target source phase' ∧
      ∀ j, j ≠ i → y[j]? = x[j]? := by
  obtain ⟨n, c, hi, hk, rfl, hm, hsrc⟩ := h
  have hilt := (List.getElem?_eq_some_iff.mp hi).1
  have hklt := (List.getElem?_eq_some_iff.mp hk).1
  refine ⟨x.set i (n.proceed k c.op phase' .nothing), ?_, ?_, ?_⟩
  · simp only [Swarm.step, hi, hk, Option.bind_some, hstep n hm hsrc, Option.map_some]
    rfl
  · exact ⟨_, _, List.getElem?_set_self hilt, List.getElem?_set_self hklt, rfl, hm, hsrc⟩
  · intro j hj
    exact List.getElem?_set_ne (Ne.symm hj)

/-- The call sends the blob, and the peer begins to write it. -/
theorem Standing.upload {x : Swarm} {i k target : Nat} {source : LocalCas}
    {phase phase' : ClientPhase} {ev : ClientEvent} {url : Url} {d : Digest} {body : Bytes}
    (h : Standing x i k target source phase)
    (hstep : ∀ n : SwarmNode, n.mirror = some target → n.sys.store.inner = source →
      phase.step H n (x.holdsDurably resolve) ev = some (phase', .upload url d body))
    {j : Nat} (hurl : resolve (normUrl url) = some j) (hji : j ≠ i) {m : SwarmNode}
    (hj : x[j]? = some m) :
    ∃ y, Swarm.step H resolve x (.client i k ev) = some y ∧ Standing y i k target source phase' ∧
      y[j]? = some (m.receive d body) ∧ ∀ j', j' ≠ i → j' ≠ j → y[j']? = x[j']? := by
  obtain ⟨n, c, hi, hk, rfl, hm, hsrc⟩ := h
  have hilt := (List.getElem?_eq_some_iff.mp hi).1
  have hjlt := (List.getElem?_eq_some_iff.mp hj).1
  have hklt := (List.getElem?_eq_some_iff.mp hk).1
  let eff : Effect := .upload url d body
  have hj' : (x.set i (n.proceed k c.op phase' eff))[j]? = some m := by
    rw [List.getElem?_set_ne (Ne.symm hji)]
    exact hj
  refine ⟨(x.set i (n.proceed k c.op phase' eff)).set j (m.receive d body), ?_, ?_, ?_, ?_⟩
  · simp only [Swarm.step, hi, hk, Option.bind_some, hstep n hm hsrc, Option.map_some,
      Swarm.deliver, hurl]
    rw [hj']
  · refine ⟨n.proceed k c.op phase' eff, ⟨c.op, phase'⟩, ?_, List.getElem?_set_self hklt, rfl, hm,
      hsrc⟩
    rw [List.getElem?_set_ne hji]
    exact List.getElem?_set_self hilt
  · exact List.getElem?_set_self (by rw [List.length_set]; exact hjlt)
  · intro j' hi' hjj
    rw [List.getElem?_set_ne (Ne.symm hjj), List.getElem?_set_ne (Ne.symm hi')]

theorem Stores.of_eq {x y : Swarm} {j : Nat} {s : CasStore} (h : Stores x j s)
    (heq : y[j]? = x[j]?) : Stores y j s := by
  obtain ⟨n, hj, hs⟩ := h
  exact ⟨n, heq.trans hj, hs⟩

theorem Standing.of_eq {x y : Swarm} {i k target : Nat} {source : LocalCas} {phase : ClientPhase}
    (h : Standing x i k target source phase) (heq : y[i]? = x[i]?) :
    Standing y i k target source phase := by
  obtain ⟨n, c, hi, hrest⟩ := h
  exact ⟨n, c, heq.trans hi, hrest⟩

/-- A peer that is reached answers from its store. -/
theorem Swarm.holdsDurably_eq {x : Swarm} {c : CasPeer} {j : Nat} {m : SwarmNode}
    (hurl : resolve (normUrl c.url) = some j) (hj : x[j]? = some m) {p : Neighbour}
    (hm : m.sys.store = p.store) (d : Digest) : x.holdsDurably resolve c d = p.holds d := by
  simp only [holdsDurably, hurl, Option.bind_some, hj, Option.any_some, SwarmNode.has,
    SwarmNode.writeOnly, hm, Neighbour.holds]

/-- What a peer does with a body it has received. -/
theorem receive_run {x : Swarm} {j : Nat} {m : SwarmNode} {d : Digest} {body : Bytes}
    (hj : x[j]? = some (m.receive d body)) {p : Neighbour} (hm : m.sys.store = p.store)
    (harrives : p.arrives = true) :
    ∃ as y, Run (Swarm.step H resolve) (fun _ a => a.benign = true) x as y ∧
      Stores y j (p.put H d body).2.store ∧ ∀ j', j' ≠ j → y[j']? = x[j']? := by
  have hlt := (List.getElem?_eq_some_iff.mp hj).1
  have hk : (m.receive d body).sys.puts[m.sys.puts.length]? =
      some (.keyed ⟨d, .body body, .entered⟩) := by
    simp [SwarmNode.receive]
  simp only [Neighbour.put, harrives, if_true, CasStore.putKeyedLocal]
  cases hput : p.store.putKeyed H d body p.evs with
  | none => exact ⟨[], x, .nil x, ⟨_, hj, hm⟩, fun _ _ => rfl⟩
  | some r =>
    obtain ⟨out, t⟩ := r
    unfold CasStore.putKeyed at hput
    split at hput
    · next t' d' source' out' hrun =>
      cases hput
      have hwrite := Swarm.run_store resolve
        (run_write hrun (x := (m.receive d body).sys) hm hk) hj rfl
      have hothers : ∀ (n : SwarmNode) (j' : Nat), j' ≠ j → (x.set j n)[j']? = x[j']? :=
        fun n j' hj' => List.getElem?_set_ne (Ne.symm hj')
      cases out with
      | error e => exact ⟨_, _, hwrite, ⟨_, List.getElem?_set_self hlt, rfl⟩, hothers _⟩
      | ok u =>
        -- `put_keyed_local` releases the guard of what it has written
        generalize hwritten : ({ m.receive d body with
          sys := { (m.receive d body).sys with
            store := t
            puts := (m.receive d body).sys.puts.set m.sys.puts.length
              (.keyed ⟨d', source', .returned (.ok u)⟩) } } : SwarmNode) = m' at hwrite
        have hstore : m'.sys.store = t := by rw [← hwritten]
        have hself : (x.set j m')[j]? = some m' := List.getElem?_set_self hlt
        have hstep : Sys.step H m'.sys (.release d) =
          some { m'.sys with store := m'.sys.store.releaseGuard d } := rfl
        have hrelease := Swarm.run_store resolve (.cons rfl hstep (.nil _)) hself rfl
        refine ⟨_, _, hwrite.append hrelease, ⟨_, List.getElem?_set_self ?_, ?_⟩, ?_⟩
        · rw [List.length_set]
          exact hlt
        · exact congrArg (CasStore.releaseGuard · d) hstore
        · intro j' hj'
          rw [List.getElem?_set_ne (Ne.symm hj')]
          exact hothers m' j' hj'
    · cases hput

/-! ## One peer -/

section Visit

variable {x : Swarm} {i k target j : Nat} {source : LocalCas} {d : Digest} {c : CasPeer}
  {todo : List CasPeer} {acc : Pushed} {p : Neighbour}

/-- The first `HEAD`. -/
theorem head_run (h : Standing x i k target source (.pushing d (c :: todo) acc))
    (hmore : acc.held < target) (hurl : resolve (normUrl c.url) = some j)
    (hp : Stores x j p.store) :
    ∃ y, Swarm.step H resolve x (.client i k (.head p.heard)) = some y ∧
      Standing y i k target source (if p.confirms d then
        .pushing d todo { acc with held := acc.held + 1 } else .sending d c todo acc) ∧
      ∀ j', j' ≠ i → y[j']? = x[j']? := by
  obtain ⟨m, hj, hm⟩ := hp
  refine h.next fun n hmirror _ => ?_
  simp only [ClientPhase.step, hmirror, Option.getD_some, if_neg (Nat.not_le.mpr hmore),
    Swarm.holdsDurably_eq hurl hj hm]
  unfold Neighbour.confirms
  cases p.heard && p.holds d <;> rfl

/-- A peer that does not confirm at once is sent the blob and asked again. -/
theorem send_run (h : Standing x i k target source (.sending d c todo acc)) {body : Bytes}
    (hget : source.get H d = .ok body) (hurl : resolve (normUrl c.url) = some j) (hji : j ≠ i)
    (hp : Stores x j p.store) :
    ∃ as y, Run (Swarm.step H resolve) (fun _ a => a.benign = true) x as y ∧
      Standing y i k target source (.pushing d todo
        (if (p.put H d body).1 && (p.put H d body).2.heardAgain && (p.put H d body).2.holds d then
          ⟨acc.held + 1, acc.sent + 1⟩ else acc)) ∧
      Stores y j (p.put H d body).2.store ∧ ∀ j', j' ≠ i → j' ≠ j → y[j']? = x[j']? := by
  obtain ⟨m, hj, hm⟩ := hp
  cases harr : p.arrives with
  | false =>
    have hdropped : ∀ n : SwarmNode, n.mirror = some target → n.sys.store.inner = source →
        (ClientPhase.sending d c todo acc).step H n (x.holdsDurably resolve) (.put false) =
          some (.pushing d todo acc, .nothing) := by
      intro n _ hsrc
      simp [ClientPhase.step, hsrc, hget]
    obtain ⟨y, hstep, hstand, hsame⟩ := h.next hdropped
    have hput : p.put H d body = (false, p) := by simp [Neighbour.put, harr]
    rw [hput]
    exact ⟨_, y, .cons rfl hstep (.nil y), hstand, ⟨m, (hsame j hji).trans hj, hm⟩,
      fun j' hi' _ => hsame j' hi'⟩
  | true =>
    have hsent : ∀ n : SwarmNode, n.mirror = some target → n.sys.store.inner = source →
        (ClientPhase.sending d c todo acc).step H n (x.holdsDurably resolve) (.put true) =
          some (.awaiting d c todo acc, .upload c.url d body) := by
      intro n _ hsrc
      simp [ClientPhase.step, hsrc, hget]
    obtain ⟨y₁, hstep₁, hstand₁, hj₁, hsame₁⟩ := h.upload hsent hurl hji hj
    obtain ⟨as, y₂, hrun₂, hstores₂, hsame₂⟩ := receive_run (H := H) hj₁ hm harr
    have hstand₂ := hstand₁.of_eq (hsame₂ i (Ne.symm hji))
    have hothers₂ : ∀ j', j' ≠ i → j' ≠ j → y₂[j']? = x[j']? := fun j' hi' hjj =>
      (hsame₂ j' hjj).trans (hsame₁ j' hi' hjj)
    -- the reply, and the second `HEAD` if it is a success
    have hreply : ∀ n : SwarmNode, n.mirror = some target → n.sys.store.inner = source →
        (ClientPhase.awaiting d c todo acc).step H n (y₂.holdsDurably resolve)
          (.reply (p.put H d body).1) = some (if (p.put H d body).1 then .confirming d c todo acc
            else .pushing d todo acc, .nothing) := fun _ _ _ => rfl
    obtain ⟨y₃, hstep₃, hstand₃, hsame₃⟩ := hstand₂.next hreply
    have hstores₃ := hstores₂.of_eq (hsame₃ j hji)
    have hothers₃ : ∀ j', j' ≠ i → j' ≠ j → y₃[j']? = x[j']? := fun j' hi' hjj =>
      (hsame₃ j' hi').trans (hothers₂ j' hi' hjj)
    have hrun₃ : Run (Swarm.step H resolve) (fun _ a => a.benign = true) x _ y₃ :=
      .cons rfl hstep₁ (hrun₂.append (.cons rfl hstep₃ (.nil y₃)))
    cases hrep : (p.put H d body).1 with
    | false =>
      rw [hrep] at hstand₃
      exact ⟨_, y₃, hrun₃, hstand₃, hstores₃, hothers₃⟩
    | true =>
      rw [hrep] at hstand₃
      obtain ⟨m₃, hj₃, hm₃⟩ := hstores₃
      have hagain : ∀ n : SwarmNode, n.mirror = some target → n.sys.store.inner = source →
          (ClientPhase.confirming d c todo acc).step H n (y₃.holdsDurably resolve)
            (.head (p.put H d body).2.heardAgain) = some (.pushing d todo
              (if (p.put H d body).2.heardAgain && (p.put H d body).2.holds d then
                ⟨acc.held + 1, acc.sent + 1⟩ else acc), .nothing) := by
        intro n _ _
        simp only [ClientPhase.step, Swarm.holdsDurably_eq hurl hj₃ hm₃]
        cases (p.put H d body).2.heardAgain && (p.put H d body).2.holds d <;> rfl
      obtain ⟨y₄, hstep₄, hstand₄, hsame₄⟩ := hstand₃.next hagain
      refine ⟨_, y₄, hrun₃.snoc rfl hstep₄, hstand₄, ⟨m₃, (hsame₄ j hji).trans hj₃, hm₃⟩, ?_⟩
      exact fun j' hi' hjj => (hsame₄ j' hi').trans (hothers₃ j' hi' hjj)

/-- One turn of the loop. -/
theorem visit_run (h : Standing x i k target source (.pushing d (c :: todo) acc))
    (hmore : acc.held < target) (hurl : resolve (normUrl c.url) = some j) (hji : j ≠ i)
    (hp : Stores x j p.store) :
    ∃ as y, Run (Swarm.step H resolve) (fun _ a => a.benign = true) x as y ∧
      (∀ j', j' ≠ i → j' ≠ j → y[j']? = x[j']?) ∧
      match visit H source d p acc with
      | .ok (p', acc') => p'.durable = p.durable ∧ Stores y j p'.store ∧
          Standing y i k target source (.pushing d todo acc')
      | .error e => Stores y j p.store ∧ Standing y i k target source (.returned (.error e)) := by
  obtain ⟨y₁, hstep₁, hstand₁, hsame₁⟩ := head_run (H := H) h hmore hurl hp
  have hp₁ := hp.of_eq (hsame₁ j hji)
  cases hconf : p.confirms d with
  | true =>
    rw [hconf] at hstand₁
    rw [visit_confirms hconf]
    exact ⟨_, y₁, .cons rfl hstep₁ (.nil y₁), fun j' hi' _ => hsame₁ j' hi', rfl, hp₁, hstand₁⟩
  | false =>
    have hhead : (p.heard && p.holds d) = false := hconf
    rw [hconf] at hstand₁
    cases hget : source.get H d with
    | error e =>
      have hunread : ∀ n : SwarmNode, n.mirror = some target → n.sys.store.inner = source →
          (ClientPhase.sending d c todo acc).step H n (y₁.holdsDurably resolve) (.put true) =
            some (.returned (.error e), .nothing) := by
        intro n _ hsrc
        simp [ClientPhase.step, hsrc, hget]
      obtain ⟨y, hstep, hstand, hsame⟩ := Standing.next hstand₁ hunread
      rw [visit_unread hconf hget]
      exact ⟨_, y, .cons rfl hstep₁ (.cons rfl hstep (.nil y)),
        fun j' hi' _ => (hsame j' hi').trans (hsame₁ j' hi'), hp₁.of_eq (hsame j hji), hstand⟩
    | ok body =>
      obtain ⟨as, y, hrun, hstand, hstores, hsame⟩ := send_run hstand₁ hget hurl hji hp₁
      simp only [visit, hhead, hget]
      exact ⟨_, y, .cons rfl hstep₁ hrun,
        fun j' hi' hjj => (hsame j' hi' hjj).trans (hsame₁ j' hi'),
        Neighbour.put_durable H d p body, hstores, hstand⟩

end Visit

/-! ## The whole loop -/

/-- The peers that the call still has to ask are the hinted ones among the neighbours, in order. -/
inductive Lined (resolve : Url → Option Nat) (x : Swarm) : List CasPeer → List Neighbour → Prop
  | nil : Lined resolve x [] []
  | skip {p : Neighbour} {todo : List CasPeer} {ps : List Neighbour} (hhint : p.durable = false)
      (h : Lined resolve x todo ps) : Lined resolve x todo (p :: ps)
  | ask {c : CasPeer} {p : Neighbour} {j : Nat} {todo : List CasPeer} {ps : List Neighbour}
      (hhint : p.durable = true) (hurl : resolve (normUrl c.url) = some j)
      (hp : Stores x j p.store) (h : Lined resolve x todo ps) :
      Lined resolve x (c :: todo) (p :: ps)

theorem Lined.of_eq {x y : Swarm} {todo : List CasPeer} {ps : List Neighbour}
    (h : Lined resolve x todo ps)
    (heq : ∀ c ∈ todo, ∀ j, resolve (normUrl c.url) = some j → y[j]? = x[j]?) :
    Lined resolve y todo ps := by
  induction h with
  | nil => exact .nil
  | skip hhint _ ih => exact .skip hhint (ih heq)
  | ask hhint hurl hp _ ih =>
    exact .ask hhint hurl (hp.of_eq (heq _ List.mem_cons_self _ hurl))
      (ih fun c hc => heq c (List.mem_cons_of_mem _ hc))

/-- Where the call stands when the loop has come to its end. -/
def pushed (target : Nat) (d : Digest) : Except BackendError Pushed → ClientPhase
  | .error e => .returned (.error e)
  | .ok acc =>
    if acc.held < target then .returned (.error (.underreplicated acc.held target))
    else .returned (.ok d)

theorem pushed_eq_settle {n : SwarmNode} {target : Nat} (h : n.mirror = some target) (d : Digest)
    (acc : Pushed) : n.settle d acc = pushed target d (.ok acc) := by
  simp only [SwarmNode.settle, h, Option.getD_some, pushed]

/-- A loop that asks nobody else ends. -/
theorem end_run (H : HashFn) (resolve : Url → Option Nat) {x : Swarm} {i k target : Nat}
    {source : LocalCas} {d : Digest}
    {todo : List CasPeer} {acc : Pushed}
    (h : Standing x i k target source (.pushing d todo acc)) (hend : todo = [] ∨ target ≤ acc.held) :
    ∃ y, Swarm.step H resolve x (.client i k .next) = some y ∧
      Standing y i k target source (pushed target d (.ok acc)) ∧
      ∀ j, j ≠ i → y[j]? = x[j]? := by
  refine h.next fun n hm _ => ?_
  simp only [ClientPhase.step, hm, Option.getD_some, if_pos hend, pushed_eq_settle hm]

/-- Nobody but node `i` and the peers to ask has changed. -/
def Untouched (resolve : Url → Option Nat) (i : Nat) (todo : List CasPeer) (x y : Swarm) : Prop :=
  ∀ j, j ≠ i → (∀ c ∈ todo, resolve (normUrl c.url) ≠ some j) → y[j]? = x[j]?

/-- What `push_counting` computes alone, the call reaches in a run of the swarm: it returns the same,
every node that was asked has the store that the function leaves it, and no other has changed. -/
theorem pushCounting_run {source : LocalCas} {d : Digest} {target i k : Nat} {x : Swarm}
    {todo : List CasPeer} {ps : List Neighbour} {acc : Pushed}
    (h : Standing x i k target source (.pushing d todo acc)) (hlined : Lined resolve x todo ps)
    (hapart : Apart resolve i todo) :
    ∃ as y, Run (Swarm.step H resolve) (fun _ a => a.benign = true) x as y ∧
      Standing y i k target source (pushed target d (pushCounting H source d target ps acc).1) ∧
      Lined resolve y todo (pushCounting H source d target ps acc).2 ∧
      Untouched resolve i todo x y := by
  induction ps generalizing x todo acc with
  | nil =>
    cases hlined
    obtain ⟨y, hstep, hstand, hsame⟩ := end_run H resolve h (.inl rfl)
    exact ⟨_, y, .cons rfl hstep (.nil y), hstand, .nil, fun j hj _ => hsame j hj⟩
  | cons p ps ih =>
    cases hlined with
    | skip hhint hrest =>
      obtain ⟨as, y, hrun, hstand, hline, hsame⟩ := ih h hrest hapart
      rw [pushCounting_unhinted hhint]
      exact ⟨as, y, hrun, hstand, .skip hhint hline, hsame⟩
    | @ask c _ j todo _ hhint hurl hp hrest =>
      have hji : j ≠ i := fun hij => hapart.other c List.mem_cons_self (hij ▸ hurl)
      -- no peer still to be asked is this one, or node `i`
      have hfresh : ∀ c' ∈ todo, ∀ j', resolve (normUrl c'.url) = some j' → j' ≠ i ∧ j' ≠ j := by
        intro c' hc' j' hj'
        refine ⟨fun hij => ?_, fun hjj => ?_⟩
        · exact hapart.tail.other c' hc' (hij ▸ hj')
        · exact (List.pairwise_cons.mp hapart.distinct).1 c' hc' j hurl (hjj ▸ hj')
      by_cases hdone : target ≤ acc.held
      · obtain ⟨y, hstep, hstand, hsame⟩ := end_run H resolve h (.inr hdone)
        rw [pushCounting_done hdone]
        refine ⟨_, y, .cons rfl hstep (.nil y), hstand, ?_, fun j' hj' _ => hsame j' hj'⟩
        exact .ask hhint hurl (hp.of_eq (hsame j hji))
          (hrest.of_eq fun c' hc' j' hj' => hsame j' (hfresh c' hc' j' hj').1)
      · have hmore := Nat.lt_of_not_le hdone
        obtain ⟨as₁, y₁, hrun₁, hsame₁, hvisit₁⟩ := visit_run (H := H) h hmore hurl hji hp
        have hrest₁ := hrest.of_eq fun c' hc' j' hj' =>
          hsame₁ j' (hfresh c' hc' j' hj').1 (hfresh c' hc' j' hj').2
        have huntouched₁ : Untouched resolve i (c :: todo) x y₁ := fun j' hi' hjj =>
          hsame₁ j' hi' fun heq => hjj c List.mem_cons_self (heq ▸ hurl)
        cases hvisit : visit H source d p acc with
        | error e =>
          rw [hvisit] at hvisit₁
          rw [pushCounting_error hhint hmore hvisit]
          exact ⟨as₁, y₁, hrun₁, hvisit₁.2, .ask hhint hurl hvisit₁.1 hrest₁, huntouched₁⟩
        | ok r =>
          obtain ⟨p', acc'⟩ := r
          rw [hvisit] at hvisit₁
          obtain ⟨hhint₁, hp₁, hstand₁⟩ := hvisit₁
          obtain ⟨as, y, hrun, hstand, hline, hsame⟩ := ih hstand₁ hrest₁ hapart.tail
          have hp' := hp₁.of_eq (hsame j hji fun c' hc' hj' => (hfresh c' hc' j hj').2 rfl)
          rw [pushCounting_visit hhint hmore hvisit]
          refine ⟨_, y, hrun₁.append hrun, hstand, .ask (hhint₁.trans hhint) hurl hp' hline, ?_⟩
          intro j' hi' hjj
          exact (hsame j' hi' fun c' hc' => hjj c' (List.mem_cons_of_mem _ hc')).trans
            (huntouched₁ j' hi' hjj)

/-- A store with one blob. -/
def oneBlob : CasStore :=
  .new ⟨.disk, .insert (.compute .short [1]) [1] ∅, ∅, false⟩ (.writeOnly 10) 0
    [⟨.compute .short [1], 1⟩] []

/-- `b` has the blob; `c` has nothing, and takes what it is sent. -/
def holder : Neighbour := ⟨true, oneBlob, true, false, [], false, false⟩

def taker : Neighbour :=
  ⟨true, .new ⟨.disk, ∅, ∅, false⟩ (.writeOnly 10) 0 [] [], true, true, gatedWrite [1], true, true⟩

/-- `a` is to have its blob confirmed by both. -/
def heldTwice : Swarm :=
  [⟨smallNode .writeOnly (some 3) ['a'] [⟨['b'], true⟩, ⟨['c'], true⟩], [⟨['b'], true⟩, ⟨['c'], true⟩],
      some 2, .idle oneBlob, [⟨.ensureReplicated (.compute .short [1]),
        .pushing (.compute .short [1]) [⟨['b'], true⟩, ⟨['c'], true⟩] ⟨0, 0⟩⟩]⟩,
    ⟨smallNode .writeOnly (some 1) ['b'] [], [], none, .idle holder.store, []⟩,
    ⟨smallNode .writeOnly (some 1) ['c'] [], [], none, .idle taker.store, []⟩]

/-- The call returns `Ok`, and `c` has the blob. -/
theorem pushCounting_run_sent :
    ∃ as y, Run (Swarm.step .short byLetter) (fun _ a => a.benign = true) heldTwice as y ∧
      Standing y 0 0 2 oneBlob.inner (.returned (.ok (.compute .short [1]))) ∧
      ∃ s, Stores y 2 s ∧ s.inner.get .short (.compute .short [1]) = .ok [1] := by
  have hlined : Lined byLetter heldTwice [⟨['b'], true⟩, ⟨['c'], true⟩] [holder, taker] :=
    .ask (j := 1) rfl (by decide) ⟨_, rfl, rfl⟩ (.ask (j := 2) rfl (by decide) ⟨_, rfl, rfl⟩ .nil)
  have hstanding : Standing heldTwice 0 0 2 oneBlob.inner (.pushing (.compute .short [1])
      [⟨['b'], true⟩, ⟨['c'], true⟩] ⟨0, 0⟩) := ⟨_, _, rfl, rfl, rfl, rfl, rfl⟩
  obtain ⟨as, y, hrun, hstand, hafter, -⟩ := pushCounting_run (H := .short) hstanding hlined
    ⟨by decide, by decide⟩
  have hpushed : pushed 2 (.compute .short [1]) (pushCounting .short oneBlob.inner
    (.compute .short [1]) 2 [holder, taker] ⟨0, 0⟩).1 = .returned (.ok (.compute .short [1])) := by
    decide +kernel
  rw [hpushed] at hstand
  have hps : (pushCounting .short oneBlob.inner (.compute .short [1]) 2 [holder, taker] ⟨0, 0⟩).2 =
      [holder, (taker.put .short (.compute .short [1]) [1]).2] := rfl
  rw [hps] at hafter
  refine ⟨as, y, hrun, hstand, ?_⟩
  cases hafter with
  | skip hhint => cases hhint
  | ask _ _ _ hrest =>
    cases hrest with
    | skip hhint => cases hhint
    | ask _ hurl hstores =>
      obtain rfl : 2 = _ := Option.some.inj hurl
      exact ⟨_, hstores, by decide +kernel⟩

end NessieStore
