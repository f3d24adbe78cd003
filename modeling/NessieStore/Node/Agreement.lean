import NessieStore.Node.Session

/-!
# Memory and disk agree on the pins

Whenever no pin call runs, loading the ref file gives exactly the registry, so a restart has the same
pins. What a call leaves behind is decided by the rename: without it nothing has changed, with it the
change is in force, whatever failed afterwards. An observer remembers the registry and the ref from
the moment a call came, and whether the call has renamed the ref since.
-/

set_option autoImplicit false

namespace NessieStore

open Lib

/-- The step renames the ref. -/
def Session.renames (x : Session) : SessionAct → Bool
  | .step .next =>
    match x.call with
    | some ⟨_, .publishing _ _ .rename⟩ => true
    | _ => false
  | _ => false

/-- What is remembered of the last call. -/
structure Since where
  roots : Refs
  ref : Option (List Char)
  published : Bool

def Since.observe (x : Session) (a : SessionAct) (o : Since) : Since :=
  match a with
  | .call _ => ⟨x.node.roots, x.node.ref, false⟩
  | _ => { o with published := o.published || x.renames a }

/-- What the observer knows of a call: before its rename nothing has changed; after it, the change
is made or about to be. -/
def Since.Explains (o : Since) (n : Node) (c : PinCall) : Prop :=
  if o.published then
    match c.phase with
    | .renamed pins _ => pins = c.op.change o.roots.pins
    | .replaced _ | .syncing | .done _ => n.roots.pins = c.op.change o.roots.pins
    | _ => False
  else n.roots = o.roots ∧ n.ref = o.ref ∧ c.phase.swapping = false

variable {H : HashFn} {used : Bytes → Prop} {x : Session} {o : Since}

/-- The step lemma of the observer. -/
theorem Since.Explains.step {c c' : PinCall} {ev : PinEvent} {n' : Node}
    (h : o.Explains x.node c) (hinv : SessionInv H used x) (hc : x.call = some c)
    (hmove : PinCall.Moves H x.node c ev n' c') :
    (Since.observe x (.step ev) o).Explains n' c' := by
  have hstands := hinv.stands c hc
  cases hpub : o.published with
  | true =>
    simp only [Since.Explains, hpub, if_true] at h
    simp only [Since.Explains, Since.observe, hpub, Bool.true_or, if_true]
    cases hmove with
    | replace => exact h
    | commitTree => exact h
    | synced => exact h
    | syncFailed => exact h
    | _ => exact h.elim
  | false =>
    simp only [Since.Explains, hpub, Bool.false_eq_true, if_false] at h
    obtain ⟨hroots, href, hswap⟩ := h
    simp only [Since.Explains, Since.observe, hpub, Bool.false_or]
    cases hmove with
    | rename =>
      simp only [Session.renames, hc, if_true]
      rw [← hroots]
      exact hstands.2.1
    | replace => cases hswap
    | commitTree => cases hswap
    | inMemory hrefs => exact absurd hrefs hinv.onDisk
    | @prepare op pins tree todo todo' htodo =>
      have hnot : x.renames (.step .next) = false := by
        cases todo <;> simp_all [Session.renames, RefStep.next]
      simp only [hnot, Bool.false_eq_true, if_false]
      exact ⟨hroots, href, rfl⟩
    | _ =>
      simp only [Session.renames, hc, Bool.false_eq_true, if_false]
      exact ⟨hroots, href, rfl⟩

/-- Everything at once: the invariant, and what the observer knows of the last call. -/
structure Agrees (H : HashFn) (used : Bytes → Prop) (z : Session × Since) : Prop where
  session : SessionInv H used z.1
  since : ∀ c, z.1.call = some c → z.2.Explains z.1.node c

theorem Agrees.step (hcf : H.CollisionFree used) {y z : Session × Since} {a : SessionAct}
    (h : Agrees H used y) (hK : Bounded used y.1 a)
    (hs : watch (Session.step H) Since.observe y a = some z) : Agrees H used z := by
  obtain ⟨x, o⟩ := y
  obtain ⟨x', o'⟩ := z
  obtain ⟨hstep, ho⟩ := watch_eq_some.mp hs
  dsimp only at hstep ho hK
  subst ho
  cases a with
  | call op =>
    simp only [Session.step] at hstep
    split at hstep
    · cases hstep
    · next hbusy =>
      cases hstep
      refine ⟨h.session.called (Bool.eq_false_iff.mpr hbusy) op, ?_⟩
      rintro _ ⟨⟩
      exact ⟨rfl, rfl, rfl⟩
  | step ev =>
    cases hc : x.call with
    | none => simp [Session.step, hc] at hstep
    | some c =>
      simp only [Session.step, hc, Option.map_eq_some_iff] at hstep
      obtain ⟨⟨n', c'⟩, hcall, rfl⟩ := hstep
      have hmove := PinCall.moves_of_step hcall
      refine ⟨h.session.step hcf hK hc hmove, ?_⟩
      rintro _ ⟨⟩
      exact (h.since c hc).step h.session hc hmove
  | restart now blobs aside =>
    simp only [Session.step] at hstep
    split at hstep
    · next hidle =>
      obtain ⟨n, hn, -, hinv⟩ := h.session.restarted hidle.1 now hidle.2.1 hidle.2.2
      simp only [Session.step, if_pos hidle] at hn
      rw [hn] at hstep
      cases hstep
      exact ⟨hinv, by simp⟩
    · cases hstep

/-- **Memory and disk agree on the pins through every error path and restart.** On a disk node that
opens, in every sequence of pin calls with failures at any step and restarts between calls, whenever
no call runs: loading the ref file gives exactly the registered pins and tree; the last call has left
pins, tree and ref as they were if it did not rename the ref, and has its change in force if it did;
and a restart succeeds with the same pins. -/
theorem pins_agree_with_disk (hcf : H.CollisionFree used) {inner : LocalCas}
    (hdisk : inner.kind = .disk) {mode : StorageMode} {now : Nat} {blobs : List LocalBlob}
    {aside : List QuarantinedBlob} {path : String} {ref : Option (List Char)} {n : Node}
    (hopen : Node.open H inner mode now blobs aside (some path) ref = .ok n)
    (hused : ∀ tree b, namedBy ref = some tree → inner.blobs.lookup tree = some b → used b)
    {as : List SessionAct}
    (hrun : Run (watch (Session.step H) Since.observe) (fun z a => Bounded used z.1 a)
      (⟨n, none⟩, ⟨n.roots, n.ref, false⟩) as (x, o)) (hidle : x.busy = false) :
    load H x.node.store.inner x.node.ref = .ok x.node.roots ∧
    (∀ op out, x.call = some ⟨op, .done out⟩ →
      (o.published = false → x.node.roots = o.roots ∧ x.node.ref = o.ref) ∧
      (o.published = true → x.node.roots.pins = op.change o.roots.pins)) ∧
    ∀ now blobs aside, x.node.store.inner.IterLocal blobs →
      x.node.store.inner.IterQuarantine aside →
      ∃ y, Session.step H x (.restart now blobs aside) = some y ∧ y.node.roots = x.node.roots := by
  have hall : Agrees H used (x, o) :=
    hrun.keeps (fun hK hI hs => hI.step hcf hK hs) ⟨.opened hdisk hopen hused, by simp⟩
  refine ⟨(hall.session.loads_of_idle hidle).load, ?_, ?_⟩
  · intro op out hcall
    have hsince := hall.since _ hcall
    constructor
    · intro hpub
      simp only [Since.Explains, hpub, Bool.false_eq_true, if_false] at hsince
      exact ⟨hsince.1, hsince.2.1⟩
    · intro hpub
      simp only [Since.Explains, hpub, if_true] at hsince
      exact hsince
  · intro now blobs aside hl hq
    obtain ⟨n', hn', hroots, -⟩ := hall.session.restarted hidle now hl hq
    exact ⟨_, hn', hroots⟩

/-- A digest to pin; nothing need be held under it. -/
def someRoot : Digest := .compute .short [1, 2]

/-- The steps of a `pin` of `someRoot` up to its directory sync, which fails. -/
def pinsUnsynced : List SessionAct :=
  [.call (.pin someRoot), .step .next, .step .next, .step (.write (.decide false)),
    .step (.write (.read (rootBytes {someRoot}))), .step (.write (.read [])),
    .step (.write .publish), .step (.write .release), .step (.write (.afterWrite 5)),
    .step (.write .ret), .step .next, .step .next, .step .next, .step .next, .step .next,
    .step .next, .step .next, .step (.fail "io")]

/-- A pin whose directory sync failed is reported as unconfirmed, is in force, and is what the ref
file loads. -/
theorem pins_agree_with_disk_unsynced :
    ∃ n x o, Node.open .short ⟨.disk, ∅, ∅, false⟩ (.lru 0 0) 0 [] [] (some "refs") none = .ok n ∧
      run (watch (Session.step .short) Since.observe)
        (fun z a => Bounded (· = rootBytes {someRoot}) z.1 a)
        (⟨n, none⟩, ⟨n.roots, n.ref, false⟩) pinsUnsynced = some (x, o) ∧
      x.call = some ⟨.pin someRoot,
        .done (.error (.internal "refs/roots: published, durability unconfirmed: io"))⟩ ∧
      load .short x.node.store.inner x.node.ref = .ok x.node.roots ∧
      x.node.roots.pins = {someRoot} := by
  have hrun : ∃ z : Session × Since, run (watch (Session.step .short) Since.observe)
        (fun z a => Bounded (· = rootBytes {someRoot}) z.1 a)
        (⟨⟨.new ⟨.disk, ∅, ∅, false⟩ (.lru 0 0) 0 [] [], ⟨∅, none⟩, some "refs", none, false⟩, none⟩,
          ⟨⟨∅, none⟩, none, false⟩) pinsUnsynced = some z ∧
      z.1.call = some ⟨.pin someRoot,
        .done (.error (.internal "refs/roots: published, durability unconfirmed: io"))⟩ ∧
      z.2.published = true ∧ z.2.roots.pins = ∅ := run_exists (by decide +kernel)
  obtain ⟨⟨x, o⟩, hx, hcall, hpub, hempty⟩ := hrun
  dsimp only at hcall hpub hempty
  have hopen : Node.open .short ⟨.disk, ∅, ∅, false⟩ (.lru 0 0) 0 [] [] (some "refs") none =
      .ok ⟨.new ⟨.disk, ∅, ∅, false⟩ (.lru 0 0) 0 [] [], ⟨∅, none⟩, some "refs", none, false⟩ := rfl
  have hcf : HashFn.short.CollisionFree (· = rootBytes {someRoot}) := by
    rintro algo b b' rfl rfl -
    rfl
  have hidle : x.busy = false := by
    simp only [Session.busy, hcall]
    rfl
  obtain ⟨hload, hlast, -⟩ := pins_agree_with_disk hcf rfl hopen (by simp [namedBy]) (run_sound hx) hidle
  refine ⟨_, x, o, hopen, hx, hcall, hload, ?_⟩
  rw [(hlast _ _ hcall).2 hpub, hempty]
  rfl

end NessieStore
