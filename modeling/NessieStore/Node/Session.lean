import NessieStore.Lib.Run
import NessieStore.Node.Pin

/-!
# Pin calls one after the other, with failures and restarts

A session is a node on disk and at most one pin call that is running. Every step of a call may fail,
and between calls the node may be restarted, which opens the same directory again. `SessionInv` is
what holds at every step: where the call stands, and that the ref loads the registry except between
the rename and the swap.

The argument needs that a root tree, once stored, is never replaced by other bytes of the same
digest: that is what collision freedom on the contents in use is for. The number of pins is written
as a `u64` and has to stay below 2^64.
-/

set_option autoImplicit false

namespace NessieStore

open Lib

structure Session where
  node : Node
  /-- The running call, or the last one. -/
  call : Option PinCall

inductive SessionAct
  | call (op : PinOp)
  | step (ev : PinEvent)
  /-- A clean restart, with what the directory then lists. -/
  | restart (now : Nat) (blobs : List LocalBlob) (aside : List QuarantinedBlob)

/-- The call has returned. -/
def PinPhase.returned : PinPhase → Bool
  | .done _ => true
  | _ => false

/-- The call is between its rename and the sync. -/
def PinPhase.swapping : PinPhase → Bool
  | .renamed _ _ | .replaced _ => true
  | _ => false

namespace Session

/-- A call is running. -/
def busy (x : Session) : Bool := x.call.any fun c => !c.phase.returned

variable (H : HashFn)

def step (x : Session) : SessionAct → Option Session
  | .call op => if x.busy then none else some { x with call := some ⟨op, .waiting⟩ }
  | .step ev =>
    match x.call with
    | none => none
    | some c => (c.step H x.node ev).map fun r => ⟨r.1, some r.2⟩
  | .restart now blobs aside =>
    let inner := { x.node.store.inner with commitLock := false }
    if x.busy = false ∧ inner.IterLocal blobs ∧ inner.IterQuarantine aside then
      match Node.open H inner x.node.store.mode now blobs aside x.node.refs x.node.ref with
      | .ok n => some ⟨n, none⟩
      | .error _ => none
    else none

/-- The bytes that the step would publish, if they verify. -/
def publishing (x : Session) : SessionAct → Option Bytes
  | .step (.write .publish) =>
    match x.call with
    | some ⟨_, .writing w⟩ | some ⟨_, .storing _ w⟩ => some w.phase.got
    | _ => none
  | _ => none

end Session

/-- Only contents in use are published, and the pins can be counted. -/
def Bounded (used : Bytes → Prop) (x : Session) (a : SessionAct) : Prop :=
  x.node.roots.pins.card + 1 < 2 ^ 64 ∧ ∀ b ∈ x.publishing a, used b

instance (used : Bytes → Prop) [DecidablePred used] (x : Session) (a : SessionAct) :
    Decidable (Bounded used x a) :=
  inferInstanceAs (Decidable (_ ∧ ∀ b ∈ x.publishing a, used b))

/-! ## Stored trees stay -/

/-- The content `b` of `d` is on disk. -/
structure Stored (H : HashFn) (used : Bytes → Prop) (c : LocalCas) (d : Digest) (b : Bytes) :
    Prop where
  disk : c.kind = .disk
  lookup : c.blobs.lookup d = some b
  verified : d.verify H b = true
  used : used b

variable {H : HashFn} {used : Bytes → Prop}

theorem Stored.get {c : LocalCas} {d : Digest} {b : Bytes} (h : Stored H used c d b) :
    c.get H d = .ok b :=
  (LocalCas.get_disk h.disk).mpr ⟨h.lookup, h.verified⟩

/-- A landing replaces a stored content by itself. -/
theorem Stored.land (hcf : H.CollisionFree used) {c : LocalCas} {d d' : Digest} {b b' : Bytes}
    (h : Stored H used c d b) (hv : d'.verify H b' = true) (hused : used b') :
    Stored H used (c.land d' b') d b where
  disk := by rw [LocalCas.land_kind]; exact h.disk
  lookup := by
    rw [LocalCas.lookup_land_disk h.disk]
    split
    · next hd =>
      subst hd
      exact congrArg some (Digest.verify_unique hcf hused h.used hv h.verified)
    · exact h.lookup
  verified := h.verified
  used := h.used

/-- A keyed write that publishes only contents in use keeps what is stored. -/
theorem Stored.write (hcf : H.CollisionFree used) {s s' : CasStore} {w w' : Writer} {ev : WriteEvent}
    {d : Digest} {b : Bytes} (h : Stored H used s.inner d b) (hmove : Writer.Moves H s w ev s' w')
    (hused : ev = .publish → used w.phase.got) : Stored H used s'.inner d b := by
  rcases hmove.inner_cases with heq | ⟨rfl, -, hv, rfl, -⟩
  · rw [heq]
    exact h
  · exact h.land hcf hv (hused rfl)

/-- A write of the body `b` that lands leaves `b` stored. -/
theorem Stored.of_landed (hcf : H.CollisionFree used) {s s' : CasStore} {w w' : Writer}
    {ev : WriteEvent} {b : Bytes} (hdisk : s.inner.kind = .disk) (hsrc : w.Streaming b)
    (hmove : Writer.Moves H s w ev s' w') (hused : ev = .publish → used w.phase.got)
    (hbefore : w.phase.landed = true → Stored H used s.inner w.expected b)
    (hl : w'.phase.landed = true) : Stored H used s'.inner w'.expected b := by
  rw [hmove.expected_eq]
  rcases hmove.landed_cases hl with hold | ⟨rfl, hv, rfl⟩
  · exact (hbefore hold).write hcf hmove hused
  · have hgot := hsrc.got_eq hmove
    rw [hgot] at hv hused ⊢
    refine ⟨(LocalCas.land_kind _ _ _).trans hdisk, ?_, hv, hused rfl⟩
    show (s.inner.land w.expected b).blobs.lookup w.expected = some b
    rw [LocalCas.lookup_land_disk hdisk, if_pos rfl]

/-- The ref loads, from a tree that is stored. -/
structure Loads (H : HashFn) (used : Bytes → Prop) (c : LocalCas) (ref : Option (List Char))
    (roots : Refs) : Prop where
  load : load H c ref = .ok roots
  stored : ∀ tree, roots.tree = some tree → ∃ b, Stored H used c tree b

theorem Loads.mono {c c' : LocalCas} {ref : Option (List Char)} {roots : Refs}
    (h : Loads H used c ref roots)
    (hkeep : ∀ tree b, Stored H used c tree b → Stored H used c' tree b) :
    Loads H used c' ref roots where
  load := load_congr h.load fun tree ht => by
    obtain ⟨b, hb⟩ := h.stored tree ht
    rw [hb.get, (hkeep tree b hb).get]
  stored := fun tree ht => by
    obtain ⟨b, hb⟩ := h.stored tree ht
    exact ⟨b, hkeep tree b hb⟩

/-- A published ref loads. -/
theorem Loads.published {c : LocalCas} {pins : Finset Digest} {tree : Digest}
    (hcard : pins.card < 2 ^ 64) (h : Stored H used c tree (rootBytes pins)) :
    Loads H used c (some (refLine tree)) ⟨pins, some tree⟩ where
  load := load_refLine hcard h.get
  stored := by
    rintro _ ⟨⟩
    exact ⟨_, h⟩

/-! ## The invariant -/

structure SessionInv (H : HashFn) (used : Bytes → Prop) (x : Session) : Prop where
  onDisk : x.node.refs ≠ none
  disk : x.node.store.inner.kind = .disk
  stands : ∀ c, x.call = some c → c.Stands H
    (fun tree pins => Stored H used x.node.store.inner tree (rootBytes pins)) x.node
  loads : (∀ c pins tree, x.call = some c → c.phase ≠ .renamed pins tree) →
    Loads H used x.node.store.inner x.node.ref x.node.roots

namespace SessionInv

variable {x : Session}

/-- What a call publishes is in use. -/
theorem used_got {c : PinCall} {ev : PinEvent} {w : Writer} (hK : Bounded used x (.step ev))
    (hc : x.call = some c) (hw : c.phase = .writing w ∨ ∃ pins, c.phase = .storing pins w)
    (hev : ev = .write .publish) : used w.phase.got := by
  apply hK.2
  obtain ⟨op, phase⟩ := c
  subst hev
  rcases hw with hw | ⟨pins, hw⟩
  · cases hw
    simp [Session.publishing, hc]
  · cases hw
    simp [Session.publishing, hc]

/-- A call's step keeps every stored content. -/
theorem stored_step (hcf : H.CollisionFree used) {c c' : PinCall} {ev : PinEvent} {n' : Node}
    (hK : Bounded used x (.step ev)) (hc : x.call = some c) (hmove : PinCall.Moves H x.node c ev n' c')
    {d : Digest} {b : Bytes} (h : Stored H used x.node.store.inner d b) :
    Stored H used n'.store.inner d b := by
  rcases hmove.store_cases with heq | ⟨w, w', ev', rfl, hw, hwrite⟩
  · rw [heq]
    exact h
  · refine h.write hcf hwrite ?_
    rintro rfl
    exact used_got hK hc hw rfl

theorem kind_step {c c' : PinCall} {ev : PinEvent} {n n' : Node}
    (hmove : PinCall.Moves H n c ev n' c') : n'.store.inner.kind = n.store.inner.kind := by
  rcases hmove.store_cases with heq | ⟨w, w', ev', -, -, hwrite⟩
  · rw [heq]
  · rcases hwrite.inner_cases with heq | ⟨-, -, -, heq, -⟩
    · rw [heq]
    · rw [heq]
      exact LocalCas.land_kind _ _ _

theorem step (hcf : H.CollisionFree used) (h : SessionInv H used x) {c c' : PinCall}
    {ev : PinEvent} {n' : Node} (hK : Bounded used x (.step ev)) (hc : x.call = some c)
    (hmove : PinCall.Moves H x.node c ev n' c') : SessionInv H used ⟨n', some c'⟩ := by
  have hstands := h.stands c hc
  have hkeep : ∀ tree b, Stored H used x.node.store.inner tree b →
      Stored H used n'.store.inner tree b := fun tree b hb => stored_step hcf hK hc hmove hb
  have hloads : (∀ pins tree, c.phase ≠ .renamed pins tree) →
      Loads H used n'.store.inner x.node.ref x.node.roots := fun hnot =>
    (h.loads fun d pins tree hd => by
      rw [hc] at hd
      cases hd
      exact hnot pins tree).mono hkeep
  refine ⟨by rw [hmove.refs_eq]; exact h.onDisk, (kind_step hmove).trans h.disk, ?_, ?_⟩
  · rintro _ ⟨⟩
    refine hstands.step hmove (fun tree pins => hkeep tree _) ?_
    rintro pins w w' ev' rfl hw hsrc hwrite hl hl'
    refine Stored.of_landed hcf h.disk hsrc hwrite ?_ hl hl'
    rintro rfl
    exact used_got hK hc (.inr ⟨pins, hw⟩) rfl
  · intro hnot
    show Loads H used n'.store.inner n'.ref n'.roots
    rcases hmove.registry_cases with ⟨hroots, href, hphase⟩ | ⟨pins, tree, -, hc', -, -⟩ |
      ⟨pins, tree, hphase, -, hroots, href⟩ | ⟨hrefs, -⟩
    · rw [hroots, href]
      exact hloads hphase
    · exact absurd hc' (hnot c' pins tree rfl)
    · simp only [PinCall.Stands, hphase] at hstands
      obtain ⟨hpins, hstored, hline⟩ := hstands
      rw [hroots, href, hline]
      refine .published ?_ (hkeep _ _ hstored)
      have hcard := PinOp.card_change_le c.op x.node.roots.pins
      have hbound := hK.1
      rw [← hpins] at hcard
      omega
    · exact absurd hrefs h.onDisk

/-- With no call running, the ref loads the registry. -/
theorem loads_of_idle (h : SessionInv H used x) (hidle : x.busy = false) :
    Loads H used x.node.store.inner x.node.ref x.node.roots := by
  refine h.loads fun c pins tree hc hphase => ?_
  simp [Session.busy, hc, hphase, PinPhase.returned] at hidle

theorem called (h : SessionInv H used x) (hidle : x.busy = false) (op : PinOp) :
    SessionInv H used { x with call := some ⟨op, .waiting⟩ } where
  onDisk := h.onDisk
  disk := h.disk
  stands := by
    rintro _ ⟨⟩
    exact .of_not_holds rfl
  loads := fun _ => h.loads_of_idle hidle

/-- A node on disk that opens, over a stored tree. -/
theorem opened {inner : LocalCas} (hdisk : inner.kind = .disk) {mode : StorageMode} {now : Nat}
    {blobs : List LocalBlob} {aside : List QuarantinedBlob} {path : String}
    {ref : Option (List Char)} {n : Node}
    (h : Node.open H inner mode now blobs aside (some path) ref = .ok n)
    (hused : ∀ tree b, namedBy ref = some tree → inner.blobs.lookup tree = some b → used b) :
    SessionInv H used ⟨n, none⟩ := by
  simp only [Node.open] at h
  cases hload : load H inner ref with
  | error e => rw [hload] at h; cases h
  | ok roots =>
    rw [hload] at h
    cases h
    refine ⟨by simp, hdisk, by simp, fun _ => ⟨hload, fun tree ht => ?_⟩⟩
    obtain ⟨hnamed, hget⟩ := load_ok hload
    obtain ⟨b, hb⟩ := hget tree ht
    obtain ⟨hlookup, hv⟩ := (LocalCas.get_disk hdisk).mp hb
    exact ⟨b, hdisk, hlookup, hv, hused tree b (hnamed.trans ht) hlookup⟩

/-- A restart between calls succeeds and has the same registry. -/
theorem restarted (h : SessionInv H used x) (hidle : x.busy = false) (now : Nat)
    {blobs : List LocalBlob} {aside : List QuarantinedBlob}
    (hl : x.node.store.inner.IterLocal blobs) (hq : x.node.store.inner.IterQuarantine aside) :
    ∃ n, Session.step H x (.restart now blobs aside) = some ⟨n, none⟩ ∧ n.roots = x.node.roots ∧
      SessionInv H used ⟨n, none⟩ := by
  have hloads : Loads H used { x.node.store.inner with commitLock := false } x.node.ref x.node.roots :=
    (h.loads_of_idle hidle).mono fun tree b hb => ⟨hb.disk, hb.lookup, hb.verified, hb.used⟩
  obtain ⟨path, hpath⟩ := Option.ne_none_iff_exists'.mp h.onDisk
  refine ⟨⟨.new { x.node.store.inner with commitLock := false } x.node.store.mode now blobs aside,
    x.node.roots, some path, x.node.ref, false⟩, ?_, rfl, by simp, h.disk, by simp, fun _ => hloads⟩
  simp only [Session.step]
  rw [if_pos ⟨hidle, hl, hq⟩, hpath]
  simp only [Node.open, hloads.load, Except.map]

end SessionInv

end NessieStore
