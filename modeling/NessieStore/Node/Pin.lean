import NessieStore.Node.Refs
import NessieStore.Store.Sequential

/-!
# Changing the pins, step by step

A `CasNode` (`nessie-store`, `cas_node.rs`) as its pins see it, and the three calls that change them
(`cas_node/refs.rs`): `pin`, `unpin` and `put_and_pin`, cut at every step that another call, a
failure or a power loss can come between. A call takes the pin lock first, so its owner decides when
a `waiting` call may move on; from there to `done` it has the lock.

`apply_pins` stores the new root tree, publishes the ref by writing a temporary file, syncing and
renaming it, swaps the registry, releases the tree's guard and syncs the directory. Whatever fails
up to the rename leaves pins and ref alone; after it the change is in force and only its durability
is in doubt. The tree goes through the store's `put`, which knows its digest from the start here:
the source is a buffer in memory.
-/

set_option autoImplicit false

namespace NessieStore

open Lib

/-- A node: its store, its root registry, and the ref file. -/
structure Node where
  store : CasStore
  roots : Refs
  /-- The path of `refs/`; none for a store in memory. -/
  refs : Option String
  /-- The content of `refs/roots`, if the file exists. -/
  ref : Option (List Char)
  /-- A published ref's directory sync is unconfirmed. -/
  unsynced : Bool

/-- The end of `from_config`: open the store, and load the pins when they are on disk. -/
def Node.open (H : HashFn) (inner : LocalCas) (mode : StorageMode) (now : Nat)
    (blobs : List LocalBlob) (aside : List QuarantinedBlob) (refs : Option String)
    (ref : Option (List Char)) : Except LoadError Node :=
  let store := CasStore.new inner mode now blobs aside
  match refs with
  | none => .ok ⟨store, ⟨∅, none⟩, none, none, false⟩
  | some path => (load H inner ref).map fun roots => ⟨store, roots, some path, ref, false⟩

/-- A call that changes the pins. -/
inductive PinOp
  | pin (root : Digest)
  | unpin (root : Digest)
  | putAndPin (expected : Digest)
deriving DecidableEq

/-- The closure handed to `apply_pins`. -/
def PinOp.change : PinOp → Finset Digest → Finset Digest
  | .pin d, pins | .putAndPin d, pins => insert d pins
  | .unpin d, pins => pins.erase d

/-- The digest a call pins. -/
def PinOp.pins : PinOp → Option Digest
  | .pin d | .putAndPin d => some d
  | .unpin _ => none

/-- The change is done once. -/
theorem PinOp.change_change (op : PinOp) (pins : Finset Digest) :
    op.change (op.change pins) = op.change pins := by
  cases op <;> simp [PinOp.change]

/-- Only its own `unpin` removes a pin. -/
theorem PinOp.mem_change {op : PinOp} {pins : Finset Digest} {d : Digest} (hd : d ∈ pins)
    (hop : op ≠ .unpin d) : d ∈ op.change pins := by
  cases op with
  | pin root => exact Finset.mem_insert_of_mem hd
  | putAndPin root => exact Finset.mem_insert_of_mem hd
  | unpin root => exact Finset.mem_erase.mpr ⟨fun heq => hop (heq ▸ rfl), hd⟩

theorem PinOp.card_change_le (op : PinOp) (pins : Finset Digest) :
    (op.change pins).card ≤ pins.card + 1 := by
  cases op with
  | pin d => exact Finset.card_insert_le d pins
  | putAndPin d => exact Finset.card_insert_le d pins
  | unpin d => exact (Finset.card_erase_le).trans (Nat.le_succ _)

/-- The steps of `publish_ref`. -/
inductive RefStep
  | createDir
  | createTmp
  | writeTmp
  | syncTmp
  | rename
deriving DecidableEq

def RefStep.next : RefStep → Option RefStep
  | .createDir => some .createTmp
  | .createTmp => some .writeTmp
  | .writeTmp => some .syncTmp
  | .syncTmp => some .rename
  | .rename => none

inductive PinPhase
  /-- Not yet under the pin lock. -/
  | waiting
  /-- `put_and_pin`, writing the blob. -/
  | writing (w : Writer)
  | written
  /-- The mirror has not confirmed yet. -/
  | mirroring
  /-- `apply_pins` is about to read the pins. -/
  | locked
  | storing (pins : Finset Digest) (w : Writer)
  /-- `publish_ref`, before the given step. -/
  | publishing (pins : Finset Digest) (tree : Digest) (todo : RefStep)
  | abandoning (tree : Digest) (message : String)
  /-- The ref names the new tree and the registry does not. -/
  | renamed (pins : Finset Digest) (tree : Digest)
  | replaced (tree : Digest)
  | syncing
  | done (out : Except BackendError Unit)
deriving DecidableEq

structure PinCall where
  op : PinOp
  phase : PinPhase
deriving DecidableEq

/-- The call has the pin lock. -/
def PinPhase.holds : PinPhase → Bool
  | .waiting | .done _ => false
  | _ => true

/-- Where a `put_and_pin` stands after a step of its write. -/
def PinPhase.ofWrite (w : Writer) : PinPhase :=
  match w.phase with
  | .returned (.ok _) => .written
  | .returned (.error e) => .done (.error e)
  | _ => .writing w

/-- Where a call stands after a step of its tree's write. -/
def PinPhase.ofStore (pins : Finset Digest) (w : Writer) : PinPhase :=
  match w.phase with
  | .returned (.ok _) => .publishing pins w.expected .createDir
  | .returned (.error e) => .done (.error e)
  | _ => .storing pins w

inductive PinEvent
  /-- The next step succeeds. -/
  | next
  /-- The running write takes a step. -/
  | write (ev : WriteEvent)
  /-- The next step, of the file system, fails. -/
  | fail (message : String)
  /-- The mirror answers an error. -/
  | refuse (e : BackendError)
deriving DecidableEq

namespace PinCall

variable (H : HashFn)

/-- `publish_ref`'s error, as `apply_pins` reports it. -/
def publishError (refs message : String) : BackendError :=
  .internal ("writing " ++ refs ++ "/roots: " ++ message)

/-- `sync_refs`'s error. -/
def syncError (refs message : String) : BackendError :=
  .internal (refs ++ "/roots: published, durability unconfirmed: " ++ message)

/-- One step of a call; `none` when the event cannot happen here. -/
def step (n : Node) (c : PinCall) : PinEvent → Option (Node × PinCall)
  | .next =>
    match c.phase with
    | .waiting =>
      match c.op with
      | .putAndPin d => some (n, { c with phase := .writing ⟨d, .stream, .entered⟩ })
      | _ => some (n, { c with phase := .locked })
    | .written =>
      match c.op with
      | .putAndPin d =>
        some ({ n with store := n.store.releaseGuard d }, { c with phase := .mirroring })
      | _ => none
    | .mirroring => some (n, { c with phase := .locked })
    | .locked =>
      let pins := c.op.change n.roots.pins
      if pins = n.roots.pins then
        -- nothing new, but a retry confirms an unconfirmed sync
        match n.refs, n.unsynced with
        | some _, true => some (n, { c with phase := .syncing })
        | _, _ => some (n, { c with phase := .done (.ok ()) })
      else
        match n.refs with
        | none => some ({ n with roots := ⟨pins, none⟩ }, { c with phase := .done (.ok ()) })
        | some _ =>
          some (n, ⟨c.op,
            .storing pins ⟨.compute H (rootBytes pins), .body (rootBytes pins), .entered⟩⟩)
    | .publishing pins tree todo =>
      match todo.next with
      | some todo => some (n, { c with phase := .publishing pins tree todo })
      | none => some ({ n with ref := some (refLine tree) }, { c with phase := .renamed pins tree })
    | .abandoning tree message =>
      n.refs.map fun refs => ({ n with store := n.store.releaseGuard tree },
        { c with phase := .done (.error (publishError refs message)) })
    | .renamed pins tree =>
      some ({ n with roots := ⟨pins, some tree⟩ }, { c with phase := .replaced tree })
    | .replaced tree =>
      some ({ n with store := n.store.releaseGuard tree, unsynced := true },
        { c with phase := .syncing })
    | .syncing => some ({ n with unsynced := false }, { c with phase := .done (.ok ()) })
    | _ => none
  | .write ev =>
    match c.phase with
    | .writing w =>
      (w.step H n.store ev).map fun r => ({ n with store := r.1 }, ⟨c.op, .ofWrite r.2⟩)
    | .storing pins w =>
      (w.step H n.store ev).map fun r => ({ n with store := r.1 }, ⟨c.op, .ofStore pins r.2⟩)
    | _ => none
  | .fail message =>
    match c.phase with
    | .publishing _ tree _ => some (n, { c with phase := .abandoning tree message })
    | .syncing =>
      n.refs.map fun refs => (n, { c with phase := .done (.error (syncError refs message)) })
    | _ => none
  | .refuse e =>
    match c.phase with
    | .mirroring => some (n, { c with phase := .done (.error e) })
    | _ => none

/-- What a call can do, one constructor for each transition. -/
inductive Moves : Node → PinCall → PinEvent → Node → PinCall → Prop
  | lock {n : Node} {op : PinOp} : Moves n ⟨op, .waiting⟩ .next n ⟨op, .locked⟩
  | lockWrite {n : Node} {d : Digest} :
      Moves n ⟨.putAndPin d, .waiting⟩ .next n ⟨.putAndPin d, .writing ⟨d, .stream, .entered⟩⟩
  | write {n : Node} {op : PinOp} {w w' : Writer} {ev : WriteEvent} {s' : CasStore}
      (hw : Writer.Moves H n.store w ev s' w') :
      Moves n ⟨op, .writing w⟩ (.write ev) { n with store := s' } ⟨op, .writing w'⟩
  | written {n : Node} {op : PinOp} {w w' : Writer} {ev : WriteEvent} {s' : CasStore}
      (hw : Writer.Moves H n.store w ev s' w') (hret : w'.phase = .returned (.ok ())) :
      Moves n ⟨op, .writing w⟩ (.write ev) { n with store := s' } ⟨op, .written⟩
  | writeFailed {n : Node} {op : PinOp} {w w' : Writer} {ev : WriteEvent} {s' : CasStore}
      {e : BackendError} (hw : Writer.Moves H n.store w ev s' w') :
      Moves n ⟨op, .writing w⟩ (.write ev) { n with store := s' } ⟨op, .done (.error e)⟩
  | committed {n : Node} {d : Digest} :
      Moves n ⟨.putAndPin d, .written⟩ .next { n with store := n.store.releaseGuard d }
        ⟨.putAndPin d, .mirroring⟩
  | mirrored {n : Node} {op : PinOp} : Moves n ⟨op, .mirroring⟩ .next n ⟨op, .locked⟩
  | refused {n : Node} {op : PinOp} {e : BackendError} :
      Moves n ⟨op, .mirroring⟩ (.refuse e) n ⟨op, .done (.error e)⟩
  | unchanged {n : Node} {op : PinOp} (hsame : op.change n.roots.pins = n.roots.pins)
      (hsync : n.refs = none ∨ n.unsynced = false) :
      Moves n ⟨op, .locked⟩ .next n ⟨op, .done (.ok ())⟩
  | confirm {n : Node} {op : PinOp} (hsame : op.change n.roots.pins = n.roots.pins) :
      Moves n ⟨op, .locked⟩ .next n ⟨op, .syncing⟩
  | inMemory {n : Node} {op : PinOp} (hrefs : n.refs = none) :
      Moves n ⟨op, .locked⟩ .next { n with roots := ⟨op.change n.roots.pins, none⟩ }
        ⟨op, .done (.ok ())⟩
  | begin {n : Node} {op : PinOp} {path : String} (hrefs : n.refs = some path) :
      Moves n ⟨op, .locked⟩ .next n ⟨op, .storing (op.change n.roots.pins)
        ⟨.compute H (rootBytes (op.change n.roots.pins)),
          .body (rootBytes (op.change n.roots.pins)), .entered⟩⟩
  | store {n : Node} {op : PinOp} {pins : Finset Digest} {w w' : Writer} {ev : WriteEvent}
      {s' : CasStore} (hw : Writer.Moves H n.store w ev s' w') :
      Moves n ⟨op, .storing pins w⟩ (.write ev) { n with store := s' } ⟨op, .storing pins w'⟩
  | stored {n : Node} {op : PinOp} {pins : Finset Digest} {w w' : Writer} {ev : WriteEvent}
      {s' : CasStore} (hw : Writer.Moves H n.store w ev s' w')
      (hret : w'.phase = .returned (.ok ())) :
      Moves n ⟨op, .storing pins w⟩ (.write ev) { n with store := s' }
        ⟨op, .publishing pins w'.expected .createDir⟩
  | storeFailed {n : Node} {op : PinOp} {pins : Finset Digest} {w w' : Writer} {ev : WriteEvent}
      {s' : CasStore} {e : BackendError} (hw : Writer.Moves H n.store w ev s' w') :
      Moves n ⟨op, .storing pins w⟩ (.write ev) { n with store := s' } ⟨op, .done (.error e)⟩
  | prepare {n : Node} {op : PinOp} {pins : Finset Digest} {tree : Digest} {todo todo' : RefStep}
      (htodo : todo.next = some todo') :
      Moves n ⟨op, .publishing pins tree todo⟩ .next n ⟨op, .publishing pins tree todo'⟩
  | rename {n : Node} {op : PinOp} {pins : Finset Digest} {tree : Digest} :
      Moves n ⟨op, .publishing pins tree .rename⟩ .next { n with ref := some (refLine tree) }
        ⟨op, .renamed pins tree⟩
  | publishFailed {n : Node} {op : PinOp} {pins : Finset Digest} {tree : Digest} {todo : RefStep}
      {message : String} :
      Moves n ⟨op, .publishing pins tree todo⟩ (.fail message) n ⟨op, .abandoning tree message⟩
  | abandon {n : Node} {op : PinOp} {tree : Digest} {message : String} {e : BackendError} :
      Moves n ⟨op, .abandoning tree message⟩ .next { n with store := n.store.releaseGuard tree }
        ⟨op, .done (.error e)⟩
  | replace {n : Node} {op : PinOp} {pins : Finset Digest} {tree : Digest} :
      Moves n ⟨op, .renamed pins tree⟩ .next { n with roots := ⟨pins, some tree⟩ }
        ⟨op, .replaced tree⟩
  | commitTree {n : Node} {op : PinOp} {tree : Digest} :
      Moves n ⟨op, .replaced tree⟩ .next
        { n with store := n.store.releaseGuard tree, unsynced := true } ⟨op, .syncing⟩
  | synced {n : Node} {op : PinOp} :
      Moves n ⟨op, .syncing⟩ .next { n with unsynced := false } ⟨op, .done (.ok ())⟩
  | syncFailed {n : Node} {op : PinOp} {message : String} {e : BackendError} :
      Moves n ⟨op, .syncing⟩ (.fail message) n ⟨op, .done (.error e)⟩

variable {H}

theorem moves_of_step {n n' : Node} {c c' : PinCall} {ev : PinEvent}
    (h : step H n c ev = some (n', c')) : Moves H n c ev n' c' := by
  obtain ⟨op, phase⟩ := c
  cases ev with
  | next =>
    cases phase <;> simp only [step, reduceCtorEq] at h
    case waiting =>
      split at h
      · cases h; exact .lockWrite
      · cases h; exact .lock
    case written =>
      split at h
      · cases h; exact .committed
      · cases h
    case mirroring => cases h; exact .mirrored
    case locked =>
      split at h
      · next hsame =>
        split at h
        · cases h; exact .confirm hsame
        · next hnot =>
          cases h
          refine .unchanged hsame ?_
          cases hrefs : n.refs with
          | none => exact .inl rfl
          | some path => exact .inr (Bool.eq_false_iff.mpr fun hu => hnot path hrefs hu)
      · split at h
        · next hrefs => cases h; exact .inMemory hrefs
        · next hrefs => cases h; exact .begin hrefs
    case publishing pins tree todo =>
      split at h
      · next htodo => cases h; exact .prepare htodo
      · next htodo =>
        cases todo <;> simp only [RefStep.next, reduceCtorEq] at htodo
        cases h
        exact .rename
    case abandoning tree message =>
      obtain ⟨refs, -, hr⟩ := Option.map_eq_some_iff.mp h
      cases hr
      exact .abandon
    case renamed pins tree => cases h; exact .replace
    case replaced tree => cases h; exact .commitTree
    case syncing => cases h; exact .synced
  | write ev =>
    cases phase <;> simp only [step, reduceCtorEq] at h
    case writing w =>
      obtain ⟨⟨s', w'⟩, hw, hr⟩ := Option.map_eq_some_iff.mp h
      have hmove := Writer.moves_of_step hw
      dsimp only [PinPhase.ofWrite] at hr
      split at hr
      · next hret => cases hr; exact .written hmove hret
      · cases hr; exact .writeFailed hmove
      · cases hr; exact .write hmove
    case storing pins w =>
      obtain ⟨⟨s', w'⟩, hw, hr⟩ := Option.map_eq_some_iff.mp h
      have hmove := Writer.moves_of_step hw
      dsimp only [PinPhase.ofStore] at hr
      split at hr
      · next hret => cases hr; exact .stored hmove hret
      · cases hr; exact .storeFailed hmove
      · cases hr; exact .store hmove
  | fail message =>
    cases phase <;> simp only [step, reduceCtorEq] at h
    case publishing pins tree todo => cases h; exact .publishFailed
    case syncing =>
      obtain ⟨refs, -, hr⟩ := Option.map_eq_some_iff.mp h
      cases hr
      exact .syncFailed
  | refuse e =>
    cases phase <;> simp only [step, reduceCtorEq] at h
    case mirroring => cases h; exact .refused

namespace Moves

variable {n n' : Node} {c c' : PinCall} {ev : PinEvent}

/-- A call writes through a keyed write or releases a guard, and does nothing else to the store. -/
theorem store_cases (h : Moves H n c ev n' c') : n'.store.inner = n.store.inner ∨
    ∃ w w' ev', ev = .write ev' ∧ (c.phase = .writing w ∨ ∃ pins, c.phase = .storing pins w) ∧
      Writer.Moves H n.store w ev' n'.store w' := by
  cases h with
  | write hw => exact .inr ⟨_, _, _, rfl, .inl rfl, hw⟩
  | written hw => exact .inr ⟨_, _, _, rfl, .inl rfl, hw⟩
  | writeFailed hw => exact .inr ⟨_, _, _, rfl, .inl rfl, hw⟩
  | store hw => exact .inr ⟨_, _, _, rfl, .inr ⟨_, rfl⟩, hw⟩
  | stored hw => exact .inr ⟨_, _, _, rfl, .inr ⟨_, rfl⟩, hw⟩
  | storeFailed hw => exact .inr ⟨_, _, _, rfl, .inr ⟨_, rfl⟩, hw⟩
  | _ => exact .inl rfl

theorem has_mono (h : Moves H n c ev n' c') {d : Digest} (hd : n.store.inner.has d = true) :
    n'.store.inner.has d = true := by
  rcases h.store_cases with heq | ⟨w, w', ev', -, -, hw⟩
  · rw [heq]
    exact hd
  · exact hw.has_mono d hd

/-- The ref changes at the rename and the registry right after it, or, in memory, the registry
alone. -/
theorem registry_cases (h : Moves H n c ev n' c') :
    n'.roots = n.roots ∧ n'.ref = n.ref ∧ (∀ pins tree, c.phase ≠ .renamed pins tree) ∨
    (∃ pins tree, c.phase = .publishing pins tree .rename ∧ c'.phase = .renamed pins tree ∧
      n'.roots = n.roots ∧ n'.ref = some (refLine tree)) ∨
    (∃ pins tree, c.phase = .renamed pins tree ∧ c'.phase = .replaced tree ∧
      n'.roots = ⟨pins, some tree⟩ ∧ n'.ref = n.ref) ∨
    (n.refs = none ∧ ev = .next ∧ c.phase = .locked ∧ c'.phase = .done (.ok ()) ∧
      n'.roots = ⟨c.op.change n.roots.pins, none⟩ ∧ n'.ref = n.ref) := by
  cases h with
  | rename => exact .inr (.inl ⟨_, _, rfl, rfl, rfl, rfl⟩)
  | replace => exact .inr (.inr (.inl ⟨_, _, rfl, rfl, rfl, rfl⟩))
  | inMemory hrefs => exact .inr (.inr (.inr ⟨hrefs, rfl, rfl, rfl, rfl, rfl⟩))
  | _ => exact .inl ⟨rfl, rfl, by simp⟩

theorem refs_eq (h : Moves H n c ev n' c') : n'.refs = n.refs := by
  cases h <;> rfl

end Moves

variable (H)

/-- Where a call stands with respect to the node. From the moment it has read the pins they do not
change, and what it carries is the set that will replace them; the tree of that set is `held` once
it is stored; after the swap the change has nothing left to do. -/
def Stands (held : Digest → Finset Digest → Prop) (n : Node) (c : PinCall) : Prop :=
  match c.phase with
  | .storing pins w => n.refs ≠ none ∧ pins = c.op.change n.roots.pins ∧
      w.expected = .compute H (rootBytes pins) ∧ w.Streaming (rootBytes pins) ∧
      (w.phase.landed = true → held w.expected pins)
  | .publishing pins tree _ => n.refs ≠ none ∧ pins = c.op.change n.roots.pins ∧ held tree pins
  | .renamed pins tree => pins = c.op.change n.roots.pins ∧ held tree pins ∧
      n.ref = some (refLine tree)
  | .replaced _ | .syncing => c.op.change n.roots.pins = n.roots.pins
  | _ => True

variable {H}

theorem Stands.of_not_holds {held : Digest → Finset Digest → Prop} {n : Node} {c : PinCall}
    (h : c.phase.holds = false) : c.Stands H held n := by
  unfold Stands
  split <;> simp_all [PinPhase.holds]

/-- The node may change around a call as long as the pins, the ref and the trees stay. -/
theorem Stands.mono {held held' : Digest → Finset Digest → Prop} {n n' : Node} {c : PinCall}
    (h : c.Stands H held n) (hrefs : n'.refs = n.refs) (hroots : n'.roots = n.roots)
    (href : n'.ref = n.ref) (hheld : ∀ tree pins, held tree pins → held' tree pins) :
    c.Stands H held' n' := by
  unfold Stands at h ⊢
  rw [hrefs, hroots, href]
  split at h
  · exact ⟨h.1, h.2.1, h.2.2.1, h.2.2.2.1, fun hl => hheld _ _ (h.2.2.2.2 hl)⟩
  · exact ⟨h.1, h.2.1, hheld _ _ h.2.2⟩
  · exact ⟨h.1, hheld _ _ h.2.1, h.2.2⟩
  · exact h
  · exact h
  · trivial

/-- The step lemma, for any notion of a held tree that survives the step and that a landed write of
the tree establishes. -/
theorem Stands.step {held held' : Digest → Finset Digest → Prop} {n n' : Node} {c c' : PinCall}
    {ev : PinEvent} (h : c.Stands H held n) (hmove : Moves H n c ev n' c')
    (hheld : ∀ tree pins, held tree pins → held' tree pins)
    (hland : ∀ pins w w' ev', ev = .write ev' → c.phase = .storing pins w →
      w.Streaming (rootBytes pins) → Writer.Moves H n.store w ev' n'.store w' →
      (w.phase.landed = true → held w.expected pins) →
      w'.phase.landed = true → held' w'.expected pins) : c'.Stands H held' n' := by
  cases hmove with
  | @begin op path hrefs => exact ⟨by simp [hrefs], rfl, rfl, rfl, by simp [Phase.landed]⟩
  | @store op pins w w' ev' s' hw =>
    obtain ⟨hrefs, hpins, hdigest, hsrc, hl⟩ := h
    exact ⟨hrefs, hpins, hw.expected_eq.trans hdigest, hsrc.step hw,
      hland pins w w' ev' rfl rfl hsrc hw hl⟩
  | @stored op pins w w' ev' s' hw hret =>
    obtain ⟨hrefs, hpins, hdigest, -, hl⟩ := h
    have hguarded := hw.guarded_of_returned hret
    refine ⟨hrefs, hpins, hheld _ _ ?_⟩
    rw [hw.expected_eq]
    exact hl (by rw [hguarded]; rfl)
  | prepare => exact ⟨h.1, h.2.1, hheld _ _ h.2.2⟩
  | rename => exact ⟨h.2.1, hheld _ _ h.2.2, rfl⟩
  | @replace op pins tree =>
    have hpins : pins = op.change n.roots.pins := h.1
    show op.change pins = pins
    rw [hpins]
    exact PinOp.change_change op n.roots.pins
  | commitTree => exact h
  | confirm hsame => exact hsame
  | _ => trivial

end PinCall

end NessieStore
