import NessieStore.Node.Session

/-!
# Pins and power loss

The disk as a power loss sees it. A synced file keeps its content, but an entry of a directory is
safe only once that directory has been synced: until then the power loss may bring back any earlier
state of the entry. `sync_refs` syncs `refs/`, and nothing syncs the directories that `DiskCas`
renames blobs into, nor the parent of `refs/`. `Unsynced` records what a power loss can still take:
the blob entries made since the last one, `refs/` itself if it is new, and the earlier contents of
`refs/roots` back to the last sync.

So an acknowledged pin can be lost, with the root tree that its ref names (`acknowledged_pin_lost`)
or with `refs/`. When a power loss spares both, only entries inside `refs/` are at risk, and those
`sync_refs` has made safe before it acknowledged anything (`acknowledged_pins_survive`).
-/

set_option autoImplicit false

namespace NessieStore

open Lib

/-- The directory `refs/`: whether its own entry is there, and would survive. -/
inductive DirEntry
  | absent
  | fresh
  | durable
deriving DecidableEq

/-- `create_dir_all`. -/
def DirEntry.create : DirEntry → DirEntry
  | .absent => .fresh
  | d => d

/-- What a power loss can take. -/
structure Unsynced where
  /-- Blobs whose directory entry is not synced. -/
  blobs : Finset Digest
  refs : DirEntry
  /-- What `refs/roots` was before each rename since the last sync. -/
  older : List (Option (List Char))

/-- What a power loss takes: blobs, `refs/` itself, or renames of the ref, which then reads `ref`. -/
structure Loss where
  blobs : List Digest
  refs : Bool
  ref : Option (List Char)

structure PowerSys where
  session : Session
  unsynced : Unsynced

inductive PowerAct
  | call (op : PinOp)
  | step (ev : PinEvent)
  /-- The power fails and the node starts again, with what the directory then lists. -/
  | powerLoss (loss : Loss) (now : Nat) (blobs : List LocalBlob) (aside : List QuarantinedBlob)

/-- The entry changes that a step of a call makes, on top of those already unsynced. -/
def Unsynced.after (u : Unsynced) (x y : Session) (ev : PinEvent) : Unsynced where
  blobs := u.blobs ∪ (y.node.store.inner.blobs.keys \ x.node.store.inner.blobs.keys)
  refs :=
    match x.call, ev with
    | some ⟨_, .publishing _ _ .createDir⟩, .next => u.refs.create
    | _, _ => u.refs
  older :=
    match x.call, ev with
    | some ⟨_, .publishing _ _ .rename⟩, .next => x.node.ref :: u.older
    | some ⟨_, .syncing⟩, .next => []
    | _, _ => u.older

/-- The blobs that are left. -/
def LocalCas.without (c : LocalCas) (lost : List Digest) : LocalCas :=
  { c with blobs := lost.foldl (fun m d => m.erase d) c.blobs, commitLock := false }

namespace Loss

/-- Only unsynced entries are lost. -/
def Possible (l : Loss) (x : PowerSys) : Prop :=
  (∀ d ∈ l.blobs, d ∈ x.unsynced.blobs) ∧ (l.refs = true → x.unsynced.refs = .fresh) ∧
    l.ref ∈ x.session.node.ref :: x.unsynced.older

instance (l : Loss) (x : PowerSys) : Decidable (l.Possible x) :=
  inferInstanceAs (Decidable (_ ∧ (_ → _) ∧ _))

/-- The ref file that is left. -/
def refLeft (l : Loss) : Option (List Char) := if l.refs then none else l.ref

theorem refLeft_eq {l : Loss} (h : l.refs = false) : l.refLeft = l.ref := by
  simp [refLeft, h]

/-- The root trees that the ref may name are spared, and so is `refs/`. -/
def SparesRoots (l : Loss) (x : PowerSys) : Prop :=
  l.refs = false ∧
    ∀ ref ∈ x.session.node.ref :: x.unsynced.older, ∀ tree ∈ namedBy ref, tree ∉ l.blobs

instance (l : Loss) (x : PowerSys) : Decidable (l.SparesRoots x) :=
  inferInstanceAs (Decidable (_ ∧ ∀ ref ∈ _, ∀ tree ∈ namedBy ref, tree ∉ l.blobs))

end Loss

namespace PowerSys

variable (H : HashFn)

def step (x : PowerSys) : PowerAct → Option PowerSys
  | .call op => (Session.step H x.session (.call op)).map fun session => { x with session }
  | .step ev =>
    (Session.step H x.session (.step ev)).map fun session =>
      ⟨session, x.unsynced.after x.session session ev⟩
  | .powerLoss loss now blobs aside =>
    let inner := x.session.node.store.inner.without loss.blobs
    if loss.Possible x ∧ inner.IterLocal blobs ∧ inner.IterQuarantine aside then
      match Node.open H inner x.session.node.store.mode now blobs aside x.session.node.refs
          loss.refLeft with
      | .ok n => some ⟨⟨n, none⟩, ∅,
          if loss.refs then .absent else if x.unsynced.refs = .absent then .absent else .durable, []⟩
      | .error _ => none
    else none

/-- A node that has been opened; all it found is durable. -/
def opened (n : Node) : PowerSys :=
  ⟨⟨n, none⟩, ∅, if n.ref.isSome then .durable else .absent, []⟩

/-- The call that returns `Ok` in this step. -/
def returning (x : PowerSys) : PowerAct → Option PinOp
  | .step ev =>
    match Session.step H x.session (.step ev) with
    | some ⟨_, some ⟨op, .done (.ok _)⟩⟩ => some op
    | _ => none
  | _ => none

/-- The pins that are owed: acknowledged, and no `unpin` called since. -/
def owes (x : PowerSys) (a : PowerAct) (owed : Finset Digest) : Finset Digest :=
  match a with
  | .call (.unpin d) => owed.erase d
  | _ =>
    match (x.returning H a).bind PinOp.pins with
    | some d => insert d owed
    | none => owed

end PowerSys

/-- Calls within their bounds, and power losses that spare the roots. -/
def Survivable (used : Bytes → Prop) (x : PowerSys) : PowerAct → Prop
  | .call op => Bounded used x.session (.call op)
  | .step ev => Bounded used x.session (.step ev)
  | .powerLoss loss _ _ _ => x.session.node.roots.pins.card + 1 < 2 ^ 64 ∧ loss.SparesRoots x

instance (used : Bytes → Prop) [DecidablePred used] (x : PowerSys) :
    (a : PowerAct) → Decidable (Survivable used x a)
  | .call op => inferInstanceAs (Decidable (Bounded used x.session (.call op)))
  | .step ev => inferInstanceAs (Decidable (Bounded used x.session (.step ev)))
  | .powerLoss _ _ _ _ => inferInstanceAs (Decidable (_ ∧ _))

/-! ## What is left -/

variable {H : HashFn} {used : Bytes → Prop}

theorem lookup_foldl_erase (lost : List Digest) (m : Map Digest Bytes) {d : Digest} (h : d ∉ lost) :
    (lost.foldl (fun m d => m.erase d) m).lookup d = m.lookup d := by
  induction lost generalizing m with
  | nil => rfl
  | cons e lost ih =>
    rw [List.mem_cons, not_or] at h
    rw [List.foldl_cons, ih _ h.2, Map.lookup_erase_eq, if_neg h.1]

theorem Stored.without {c : LocalCas} {d : Digest} {b : Bytes} (h : Stored H used c d b)
    {lost : List Digest} (hd : d ∉ lost) : Stored H used (c.without lost) d b :=
  ⟨h.disk, (lookup_foldl_erase lost c.blobs hd).trans h.lookup, h.verified, h.used⟩

/-- A ref loads from what is left, when the tree it names is. -/
theorem Loads.without {c : LocalCas} {ref : Option (List Char)} {roots : Refs}
    (h : Loads H used c ref roots) {lost : List Digest} (hd : ∀ tree ∈ namedBy ref, tree ∉ lost) :
    Loads H used (c.without lost) ref roots := by
  have hkeep : ∀ tree, roots.tree = some tree → tree ∉ lost := fun tree ht =>
    hd tree ((load_ok h.load).1.trans ht)
  refine ⟨load_congr h.load fun tree ht => ?_, fun tree ht => ?_⟩
  · obtain ⟨b, hb⟩ := h.stored tree ht
    rw [hb.get, (hb.without (hkeep tree ht)).get]
  · obtain ⟨b, hb⟩ := h.stored tree ht
    exact ⟨b, hb.without (hkeep tree ht)⟩

/-! ## The invariant -/

/-- Every ref that a power loss may leave loads, and has the pins that are owed. -/
structure PowerInv (H : HashFn) (used : Bytes → Prop) (x : PowerSys) (owed : Finset Digest) :
    Prop where
  session : SessionInv H used x.session
  now : owed ⊆ x.session.node.roots.pins
  older : ∀ ref ∈ x.unsynced.older,
    ∃ roots, Loads H used x.session.node.store.inner ref roots ∧ owed ⊆ roots.pins
  /-- An `unpin` that runs has taken its digest off what is owed. -/
  unpin : ∀ c d, x.session.call = some c → c.op = .unpin d → c.phase.returned = false → d ∉ owed
  /-- A ref whose sync is not in doubt is the one that a power loss leaves. -/
  synced : (∀ c, x.session.call = some c → c.phase.swapping = false) →
    x.session.node.unsynced = false → x.unsynced.older = []

namespace PowerInv

variable {x y : PowerSys} {owed : Finset Digest}

/-- The current ref loads too, also between its rename and the swap. -/
theorem current (h : PowerInv H used x owed) (hcard : x.session.node.roots.pins.card + 1 < 2 ^ 64) :
    ∃ roots, Loads H used x.session.node.store.inner x.session.node.ref roots ∧
      owed ⊆ roots.pins := by
  by_cases hset : ∀ c pins tree, x.session.call = some c → c.phase ≠ .renamed pins tree
  · exact ⟨_, h.session.loads hset, h.now⟩
  · simp only [ne_eq, not_forall, not_not] at hset
    obtain ⟨c, pins, tree, hc, hphase⟩ := hset
    have hstands := h.session.stands c hc
    simp only [PinCall.Stands, hphase] at hstands
    obtain ⟨hpins, hstored, hline⟩ := hstands
    have hle := PinOp.card_change_le c.op x.session.node.roots.pins
    rw [← hpins] at hle
    refine ⟨⟨pins, some tree⟩, hline ▸ .published (by omega) hstored, ?_⟩
    intro d hd
    show d ∈ pins
    rw [hpins]
    refine PinOp.mem_change (h.now hd) fun hop => ?_
    exact h.unpin c d hc hop (by rw [hphase]; rfl) hd

/-- What a power loss that spares the roots leaves can be loaded, and has what is owed. -/
theorem survives (h : PowerInv H used x owed) (hcard : x.session.node.roots.pins.card + 1 < 2 ^ 64)
    {loss : Loss} (hposs : loss.Possible x) (hspares : loss.SparesRoots x) :
    ∃ roots, Loads H used (x.session.node.store.inner.without loss.blobs) loss.refLeft roots ∧
      owed ⊆ roots.pins := by
  obtain ⟨hrefs, htrees⟩ := hspares
  have hmem := hposs.2.2
  rw [Loss.refLeft_eq hrefs]
  have hloads : ∃ roots, Loads H used x.session.node.store.inner loss.ref roots ∧
      owed ⊆ roots.pins := by
    rcases List.mem_cons.mp hmem with heq | hold
    · rw [heq]
      exact h.current hcard
    · exact h.older _ hold
  obtain ⟨roots, hl, howed⟩ := hloads
  exact ⟨roots, hl.without (htrees _ hmem), howed⟩

/-- A step of a call that acknowledges nothing and leaves the entries of `refs/` alone. -/
theorem quiet (h : PowerInv H used x owed) {c c' : PinCall} {n' : Node} {u : Unsynced}
    (hinv : SessionInv H used ⟨n', some c'⟩) (hc : x.session.call = some c)
    (hkeep : ∀ d b, Stored H used x.session.node.store.inner d b →
      Stored H used n'.store.inner d b) (howed : owed ⊆ n'.roots.pins) (hop : c'.op = c.op)
    (hrun : c.phase.returned = false) (hu : u.older = x.unsynced.older)
    (hsync : c'.phase.swapping = false → n'.unsynced = false → x.unsynced.older = []) :
    PowerInv H used ⟨⟨n', some c'⟩, u⟩ owed where
  session := hinv
  now := howed
  older := by
    intro ref href
    rw [hu] at href
    obtain ⟨roots, hl, hsub⟩ := h.older ref href
    exact ⟨roots, hl.mono hkeep, hsub⟩
  unpin := by
    rintro _ d ⟨⟩ hunpin -
    exact h.unpin c d hc (hop.symm.trans hunpin) hrun
  synced := fun hset hflag => hu.trans (hsync (hset c' rfl) hflag)

/-- A call returns `Ok`, and no earlier ref is left to come back. -/
theorem acknowledge (h : PowerInv H used x owed) {c : PinCall} {n' : Node} {u : Unsynced}
    (hinv : SessionInv H used ⟨n', some ⟨c.op, .done (.ok ())⟩⟩)
    (hroots : n'.roots = x.session.node.roots) (hu : u.older = [])
    (hsame : c.op.change x.session.node.roots.pins = x.session.node.roots.pins) :
    PowerInv H used ⟨⟨n', some ⟨c.op, .done (.ok ())⟩⟩, u⟩
      (c.op.pins.elim owed fun d => insert d owed) where
  session := hinv
  now := by
    show _ ⊆ n'.roots.pins
    rw [hroots]
    cases hop : c.op with
    | unpin d => exact h.now
    | pin d =>
      rw [hop] at hsame
      exact Finset.insert_subset (hsame ▸ Finset.mem_insert_self d _) h.now
    | putAndPin d =>
      rw [hop] at hsame
      exact Finset.insert_subset (hsame ▸ Finset.mem_insert_self d _) h.now
  older := by
    intro ref href
    rw [hu] at href
    exact absurd href List.not_mem_nil
  unpin := by
    rintro _ d ⟨⟩ - hret
    cases hret
  synced := fun _ _ => hu

theorem owes_step {c' : PinCall} {n' : Node} {ev : PinEvent}
    (hs : Session.step H x.session (.step ev) = some ⟨n', some c'⟩) :
    x.owes H (.step ev) owed =
      match c'.phase with
      | .done (.ok _) => c'.op.pins.elim owed fun d => insert d owed
      | _ => owed := by
  obtain ⟨op, phase⟩ := c'
  simp only [PowerSys.owes, PowerSys.returning, hs]
  split
  · next d hd =>
    split at hd
    · next hret =>
      cases hret
      simp only [Option.bind_some] at hd
      simp [hd]
    · cases hd
  · next hd =>
    split at hd
    · next hret =>
      cases hret
      simp only [Option.bind_some] at hd
      simp [hd]
    · next hnot =>
      split
      · exact absurd rfl (hnot _ _ _)
      · rfl

theorem call_step (hcf : H.CollisionFree used) (h : PowerInv H used x owed) {c c' : PinCall}
    {ev : PinEvent} {n' : Node} (hK : Bounded used x.session (.step ev))
    (hc : x.session.call = some c) (hmove : PinCall.Moves H x.session.node c ev n' c')
    (hs : Session.step H x.session (.step ev) = some ⟨n', some c'⟩) :
    PowerInv H used ⟨⟨n', some c'⟩, x.unsynced.after x.session ⟨n', some c'⟩ ev⟩
      (x.owes H (.step ev) owed) := by
  have hinv := h.session.step hcf hK hc hmove
  have hstands := h.session.stands c hc
  have hkeep : ∀ d b, Stored H used x.session.node.store.inner d b →
      Stored H used n'.store.inner d b := fun d b hb => SessionInv.stored_step hcf hK hc hmove hb
  have hset : c.phase.swapping = false → x.session.node.unsynced = false →
      x.unsynced.older = [] := fun hswap => h.synced fun d hd => by
    rw [hc] at hd
    cases hd
    exact hswap
  rw [owes_step hs]
  cases hmove with
  | inMemory hrefs => exact absurd hrefs h.session.onDisk
  | @unchanged op hsame hsync =>
    have hflag := hsync.resolve_left h.session.onDisk
    exact h.acknowledge (c := ⟨op, .locked⟩) hinv rfl
      (by simp only [Unsynced.after, hc]; exact hset rfl hflag) hsame
  | @synced op =>
    exact h.acknowledge (c := ⟨op, .syncing⟩) hinv rfl (by simp only [Unsynced.after, hc]) hstands
  | @rename op pins tree =>
    refine ⟨hinv, h.now, ?_, ?_, by simp [PinPhase.swapping]⟩
    · intro ref href
      simp only [Unsynced.after, hc, List.mem_cons] at href
      rcases href with rfl | href
      · exact ⟨_, h.session.loads (by rw [hc]; rintro _ _ _ ⟨⟩; simp), h.now⟩
      · exact h.older ref href
    · rintro _ d ⟨⟩ hop -
      exact h.unpin _ d hc hop rfl
  | @replace op pins tree =>
    have hpins : pins = op.change x.session.node.roots.pins := hstands.1
    refine h.quiet hinv hc hkeep ?_ rfl rfl (by simp only [Unsynced.after, hc])
      (by simp [PinPhase.swapping])
    intro d hd
    show d ∈ pins
    rw [hpins]
    exact PinOp.mem_change (h.now hd) fun hop => h.unpin _ d hc hop rfl hd
  | commitTree =>
    exact h.quiet hinv hc hkeep h.now rfl rfl (by simp only [Unsynced.after, hc]) (by simp)
  | @prepare op pins tree todo todo' htodo =>
    refine h.quiet hinv hc hkeep h.now rfl rfl ?_ fun _ => hset rfl
    cases todo <;> simp_all [Unsynced.after, RefStep.next]
  | _ => exact h.quiet hinv hc hkeep h.now rfl rfl (by simp only [Unsynced.after, hc]) fun _ => hset rfl

theorem called (h : PowerInv H used x owed) (hidle : x.session.busy = false) (op : PinOp) :
    PowerInv H used { x with session := { x.session with call := some ⟨op, .waiting⟩ } }
      (x.owes H (.call op) owed) := by
  have hsub : x.owes H (.call op) owed ⊆ owed := by
    cases op with
    | unpin d => exact Finset.erase_subset d owed
    | _ => exact subset_rfl
  refine ⟨h.session.called hidle op, hsub.trans h.now, ?_, ?_, ?_⟩
  · intro ref href
    obtain ⟨roots, hl, howed⟩ := h.older ref href
    exact ⟨roots, hl, hsub.trans howed⟩
  · rintro _ d ⟨⟩ hop -
    have hop : op = .unpin d := hop
    subst hop
    exact Finset.notMem_erase d owed
  · intro _ hflag
    refine h.synced (fun c hc => ?_) hflag
    simp only [Session.busy, hc, Option.any_some, Bool.not_eq_false'] at hidle
    cases hphase : c.phase <;> simp_all [PinPhase.returned, PinPhase.swapping]

/-- The node starts again from what is left. -/
theorem restarted (h : PowerInv H used x owed) {loss : Loss} {now : Nat} {blobs : List LocalBlob}
    {aside : List QuarantinedBlob} (hK : Survivable used x (.powerLoss loss now blobs aside))
    (hs : PowerSys.step H x (.powerLoss loss now blobs aside) = some y) :
    PowerInv H used y owed := by
  simp only [PowerSys.step] at hs
  split at hs
  · next hposs =>
    obtain ⟨roots, hl, howed⟩ := h.survives hK.1 hposs.1 hK.2
    obtain ⟨path, hpath⟩ := Option.ne_none_iff_exists'.mp h.session.onDisk
    simp only [hpath, Node.open, hl.load, Except.map] at hs
    cases hs
    exact {
      session := ⟨by simp, h.session.disk, by simp, fun _ => hl⟩
      now := howed
      older := by simp
      unpin := by simp
      synced := fun _ _ => rfl }
  · cases hs

theorem step (hcf : H.CollisionFree used) {y : PowerSys × Finset Digest} {a : PowerAct}
    (h : PowerInv H used x owed) (hK : Survivable used x a)
    (hs : watch (PowerSys.step H) (PowerSys.owes H) (x, owed) a = some y) :
    PowerInv H used y.1 y.2 := by
  obtain ⟨y, owed'⟩ := y
  obtain ⟨hstep, howed⟩ := watch_eq_some.mp hs
  dsimp only at hstep howed ⊢
  subst howed
  cases a with
  | call op =>
    obtain ⟨session, hcall, rfl⟩ := Option.map_eq_some_iff.mp hstep
    simp only [Session.step] at hcall
    split at hcall
    · cases hcall
    · next hbusy =>
      cases hcall
      exact h.called (Bool.eq_false_iff.mpr hbusy) op
  | step ev =>
    obtain ⟨session, hcall, rfl⟩ := Option.map_eq_some_iff.mp hstep
    cases hc : x.session.call with
    | none => simp [Session.step, hc] at hcall
    | some c =>
      have hcall' := hcall
      simp only [Session.step, hc, Option.map_eq_some_iff] at hcall'
      obtain ⟨⟨n', c'⟩, hmove, rfl⟩ := hcall'
      exact h.call_step hcf hK hc (PinCall.moves_of_step hmove) hcall
  | powerLoss loss now blobs aside => exact h.restarted hK hstep

end PowerInv

/-- **An acknowledged pin survives a power loss that spares the roots.** On a disk node that opens, in
every run of pin calls and power losses in which each power loss leaves `refs/` itself and the root
trees that the ref may name: whatever entries inside `refs/` a further such power loss takes, at any
point of any call, loading what is left succeeds, and yields every pin that was acknowledged and for
which no `unpin` was called since. -/
theorem acknowledged_pins_survive (hcf : H.CollisionFree used) {inner : LocalCas}
    (hdisk : inner.kind = .disk) {mode : StorageMode} {now : Nat} {blobs : List LocalBlob}
    {aside : List QuarantinedBlob} {path : String} {ref : Option (List Char)} {n : Node}
    (hopen : Node.open H inner mode now blobs aside (some path) ref = .ok n)
    (hused : ∀ tree b, namedBy ref = some tree → inner.blobs.lookup tree = some b → used b)
    {as : List PowerAct} {x : PowerSys} {owed : Finset Digest}
    (hrun : Run (watch (PowerSys.step H) (PowerSys.owes H)) (fun z a => Survivable used z.1 a)
      (.opened n, ∅) as (x, owed))
    {loss : Loss} (hposs : loss.Possible x) (hspares : loss.SparesRoots x)
    (hcard : x.session.node.roots.pins.card + 1 < 2 ^ 64) :
    ∃ roots, load H (x.session.node.store.inner.without loss.blobs) loss.refLeft = .ok roots ∧
      owed ⊆ roots.pins := by
  have hinit : PowerInv H used (.opened n) ∅ :=
    ⟨.opened hdisk hopen hused, Finset.empty_subset _, by simp [PowerSys.opened],
      by simp [PowerSys.opened], fun _ _ => rfl⟩
  have hx : PowerInv H used x owed :=
    hrun.keeps (I := fun z => PowerInv H used z.1 z.2) (fun hK hI hs => hI.step hcf hK hs) hinit
  obtain ⟨roots, hl, howed⟩ := hx.survives hcard hposs hspares
  exact ⟨roots, hl.load, howed⟩

section Example

/-- A pinned digest, and the tree of that one pin. -/
def ackedRoot : Digest := .compute .short [1, 2]

def ackedTree : Digest := .compute .short (rootBytes {ackedRoot})

/-- An empty directory. -/
def emptyNode : Node :=
  ⟨.new ⟨.disk, ∅, ∅, false⟩ (.lru 0 0) 0 [] [], ⟨∅, none⟩, some "refs", none, false⟩

/-- A `pin` that runs through to `Ok`. -/
def pinsDurably : List PowerAct :=
  [.call (.pin ackedRoot), .step .next, .step .next, .step (.write (.decide false)),
    .step (.write (.read (rootBytes {ackedRoot}))), .step (.write (.read [])),
    .step (.write .publish), .step (.write .release), .step (.write (.afterWrite 5)),
    .step (.write .ret), .step .next, .step .next, .step .next, .step .next, .step .next,
    .step .next, .step .next, .step .next]

/-- The pin is acknowledged, and a power loss may still take its root tree, whose directory was never
synced: the ref survives and does not load. It may also take `refs/`, and the node starts without
pins. -/
theorem acknowledged_pin_lost :
    ∃ z, run (watch (PowerSys.step .short) (PowerSys.owes .short)) (fun _ _ => True)
        (.opened emptyNode, ∅) pinsDurably = some z ∧
      z.2 = {ackedRoot} ∧
      Loss.Possible ⟨[ackedTree], false, some (refLine ackedTree)⟩ z.1 ∧
      load .short (z.1.session.node.store.inner.without [ackedTree]) (some (refLine ackedTree)) =
        .error (.backend (.blobNotFound ackedTree)) ∧
      Loss.Possible ⟨[], true, some (refLine ackedTree)⟩ z.1 ∧
      load .short (z.1.session.node.store.inner.without [])
        (Loss.refLeft ⟨[], true, some (refLine ackedTree)⟩) = .ok ⟨∅, none⟩ :=
  run_exists (by decide +kernel)

def otherRoot : Digest := .compute .short [3]

/-- The two pin sets that are stored below. -/
def storedSets : List Bytes := [rootBytes {ackedRoot}, rootBytes {otherRoot, ackedRoot}]

/-- A second `pin`, up to the rename of the ref. -/
def pinsAnother : List PowerAct :=
  [.call (.pin otherRoot), .step .next, .step .next, .step (.write (.decide false)),
    .step (.write (.read (rootBytes {otherRoot, ackedRoot}))), .step (.write (.read [])),
    .step (.write .publish), .step (.write .release), .step (.write (.afterWrite 6)),
    .step (.write .ret), .step .next, .step .next, .step .next, .step .next, .step .next]

/-- A power loss in the middle of the second call, between rename and sync, brings the first ref
back, and the first pin with it. -/
theorem acknowledged_pins_survive_old_ref :
    ∃ x, run (watch (PowerSys.step .short) (PowerSys.owes .short))
        (fun z a => Survivable (· ∈ storedSets) z.1 a)
        (.opened emptyNode, ∅) (pinsDurably ++ pinsAnother) = some (x, {ackedRoot}) ∧
      ∃ roots, load .short (x.session.node.store.inner.without []) (some (refLine ackedTree)) =
        .ok roots ∧ {ackedRoot} ⊆ roots.pins := by
  have hrun : ∃ z : PowerSys × Finset Digest, run (watch (PowerSys.step .short) (PowerSys.owes .short))
        (fun z a => Survivable (· ∈ storedSets) z.1 a)
        (.opened emptyNode, ∅) (pinsDurably ++ pinsAnother) = some z ∧
      z.2 = {ackedRoot} ∧ Loss.Possible ⟨[], false, some (refLine ackedTree)⟩ z.1 ∧
      Loss.SparesRoots ⟨[], false, some (refLine ackedTree)⟩ z.1 ∧
      z.1.session.node.roots.pins.card + 1 < 2 ^ 64 := run_exists (by decide +kernel)
  obtain ⟨⟨x, owed⟩, hx, howed, hposs, hspares, hcard⟩ := hrun
  dsimp only at howed hposs hspares hcard
  subst howed
  have hcf : HashFn.short.CollisionFree (· ∈ storedSets) := by
    have hall : ∀ b ∈ storedSets, ∀ b' ∈ storedSets,
        HashFn.short.hash .blake3 b = HashFn.short.hash .blake3 b' → b = b' := by decide +kernel
    intro algo b b' hb hb' h
    cases algo with
    | blake3 => exact hall b hb b' hb' h
    | sha256 => exact hall b hb b' hb' h
  have hopen : Node.open .short ⟨.disk, ∅, ∅, false⟩ (.lru 0 0) 0 [] [] (some "refs") none =
      .ok emptyNode := rfl
  obtain ⟨roots, hload, hsub⟩ := acknowledged_pins_survive hcf rfl hopen (by simp [namedBy])
    (run_sound hx) hposs hspares hcard
  rw [Loss.refLeft_eq rfl] at hload
  exact ⟨x, hx, roots, hload, hsub⟩

end Example

end NessieStore
