import NessieStore.Mirror.Transfer
import NessieStore.Volume.Grows

/-!
# The incremental base

One relationship between two in-memory backends: the transfers of `NessieStore.Mirror.Transfer`, one
after the other, with jobs that act on the backends (`nessie-store`, `snapmirror.rs`;
`nessie-backend-mem`). The base cursor lives on the sender and moves only on an answer of the peer, so
whatever failed on the way, both sides have the snapshot that it names (`Shared.base`), and the next
stream finds its base.

A job can fail before it reaches a backend, the destination can fail to read the stream, and its
answer can get lost (`Weather`). The HTTP layer between the two (headers, the token) is part of that:
a request it refuses is one that fails. Other clients use both backends, and delete nothing.
-/

set_option autoImplicit false

namespace NessieStore

open Lib SnapMirrorStore

/-! ## The jobs -/

/-- What befalls a stream on its way, and the uuids that the destination may draw. -/
structure Weather where
  /-- The job fails before the request is sent. -/
  send : Option String
  /-- The destination fails to read the body. -/
  receive : Option String
  /-- The answer is lost. -/
  reply : Option String
  destVol : VolumeUuid
  destSnap : SnapshotUuid

section

variable (debug : Text → String) (say : BackendError → String)

/-- What `blocking::run` makes of an operation that panicked. -/
def Outcome.toExcept {α : Type} : Outcome α → Except BackendError α
  | .ok value => .ok value
  | .error e => .error e
  | .panicked message => .error (.internal ("backend task panicked: " ++ message))

/-- The first job: find the source volume and snapshot it. -/
def snapshotJob (b : MemBackend) (volName snap : Text) (fails : Option String)
    (fresh : SnapshotUuid) : Except BackendError VolumeUuid × MemBackend :=
  match fails with
  | some e => (.error (.internal e), b)
  | none =>
    match b.volumeNamed volName with
    | none => (.error (.invalidArgument ("source volume " ++ debug volName ++ " not found")), b)
    | some vol =>
      let made := b.createSnapshot fresh vol.uuid snap
      (made.1.toExcept.map fun _ => vol.uuid, made.2)

/-- `post_replication_stream` and the peer's `internal_receive`. -/
def postReplicationStream (dest : MemBackend) (destVol : Text) (bytes : Bytes) (w : Weather) :
    Except BackendError Nat × MemBackend :=
  let body : Except String Bytes := match w.receive with
    | some e => .error e
    | none => .ok bytes
  let received := dest.receiveStream debug w.destVol w.destSnap destVol body
  match w.reply, received.1.toExcept with
  | some e, _ => (.error (.internal ("replication POST failed: " ++ e)), received.2)
  | none, .ok applied => (.ok applied, received.2)
  | none, .error e =>
    (.error (.internal ("peer rejected replication (500 Internal Server Error): receive failed: " ++
      say e)), received.2)

/-- The second job: open the stream and post it. -/
def streamJob (source dest : MemBackend) (sourceVol : VolumeUuid) (snap : Text) (target : Target)
    (w : Weather) : Except BackendError Nat × MemBackend :=
  match w.send, (source.sendStream debug sourceVol snap target.base).1.toExcept with
  | some e, _ => (.error (.internal e), dest)
  | none, .error e => (.error e, dest)
  | none, .ok bytes => postReplicationStream debug say dest target.destVol bytes w

/-! ## The system -/

structure PairSys where
  source : MemBackend
  dest : MemBackend
  /-- The sender's. -/
  store : SnapMirrorStore
  call : TransferCall

inductive PairAct
  /-- A request for a transfer, when the last one is answered. -/
  | transfer
  | resume (fresh now : Text)
  /-- The snapshot job ends. -/
  | snapshot (fails : Option String) (fresh : SnapshotUuid)
  /-- The stream job ends. -/
  | stream (w : Weather)
  /-- Another client of the source. -/
  | source (op : MemOp)
  /-- Another client of the destination. -/
  | dest (op : MemOp)

/-- The call is answered. -/
def TransferCall.over : TransferCall → Bool
  | .done _ => true
  | .gone => true
  | _ => false

def pairStep (uuid : Text) (x : PairSys) : PairAct → Option PairSys
  | .transfer => if x.call.over then some { x with call := .start uuid } else none
  | .resume fresh now =>
    (x.call.step x.store (.resume fresh now)).map fun r => { x with store := r.1, call := r.2 }
  | .snapshot fails fresh =>
    match x.call with
    | .held u seq (.snapshotting path) =>
      let job := snapshotJob debug x.source (volOf path) (snapName u seq) fails fresh
      (x.call.step x.store (.snapshotEnds (job.1.mapError say))).map fun r =>
        { x with source := job.2, store := r.1, call := r.2 }
    | _ => none
  | .stream w =>
    match x.call with
    | .held u seq (.streaming vol target) =>
      let job := streamJob debug say x.source x.dest vol (snapName u seq) target w
      (x.call.step x.store (.streamEnds (job.1.mapError say))).map fun r =>
        { x with dest := job.2, store := r.1, call := r.2 }
    | _ => none
  | .source op => some { x with source := (x.source.exec debug op).2 }
  | .dest op => some { x with dest := (x.dest.exec debug op).2 }

end

/-- Uuids are fresh, and other clients delete nothing. -/
def PairAllowed (x : PairSys) : PairAct → Prop
  | .transfer => True
  | .resume _ _ => True
  | .snapshot _ fresh => x.source.FreshSnapshot fresh
  | .stream w => w.destVol ∉ x.dest.volumes ∧ x.dest.FreshSnapshot w.destSnap
  | .source op => op.Fresh x.source ∧ op.Adds x.source
  | .dest op => op.Fresh x.dest ∧ op.Adds x.dest

instance (x : PairSys) (a : PairAct) : Decidable (PairAllowed x a) := by
  cases a <;> unfold PairAllowed <;> infer_instance

/-! ## The invariant -/

/-- A relationship: what does not change about it. Neither its source volume's name nor its uuid has a
line break. -/
structure Link where
  uuid : Text
  sourcePath : Text
  destinationPath : Text
  peerUuid : Text
  volume_unbroken : '\n' ∉ volOf sourcePath
  uuid_unbroken : '\n' ∉ uuid ∧ '\r' ∉ uuid

namespace Link

variable (l : Link)

/-- The names of its snapshots have no line break and are not empty. -/
theorem snapName_unbroken (seq : Nat) : snapName l.uuid seq ≠ [] ∧ '\n' ∉ snapName l.uuid seq ∧
    '\r' ∉ snapName l.uuid seq := by
  have hdigits : ∀ {c : Char}, c.isDigit = false → c ∉ Nat.toDigits 10 seq := by
    intro c hc hmem
    rw [Nat.isDigit_of_mem_toDigits (by decide) (by decide) hmem] at hc
    cases hc
  have hname : ∀ {c : Char}, c.isDigit = false → c ∉ l.uuid → c ∉ "snapmirror.".toList → c ≠ '.' →
      c ∉ snapName l.uuid seq := by
    intro c hc huuid hlead hdot hmem
    rcases List.mem_append.mp hmem with hmem | hmem
    · rcases List.mem_append.mp hmem with hmem | hmem
      · exact hlead hmem
      · exact huuid (List.mem_of_mem_take hmem)
    · rcases List.mem_cons.mp hmem with heq | hmem
      · exact hdot heq
      · exact hdigits hc hmem
  refine ⟨?_, hname (by decide) l.uuid_unbroken.1 (by decide) (by decide),
    hname (by decide) l.uuid_unbroken.2 (by decide) (by decide)⟩
  exact List.append_ne_nil_of_right_ne_nil _ (List.cons_ne_nil _ _)

/-- Both sides have this snapshot of the relationship. -/
def Both (source dest : MemBackend) (snap : Text) : Prop :=
  source.HasSnapshot (volOf l.sourcePath) snap ∧ dest.HasSnapshot (volOf l.destinationPath) snap

/-- The volume is the relationship's source, and has the snapshot. -/
def Sends (source : MemBackend) (vol : VolumeUuid) (snap : Text) : Prop :=
  ∃ v, source.volumes.lookup vol = some v ∧ v.name = volOf l.sourcePath ∧
    source.HasSnapshot (volOf l.sourcePath) snap

/-- What is known in each phase of a transfer. -/
def PhaseOk (source dest : MemBackend) (base : Option Text) (seq : Nat) : TransferPhase → Prop
  | .snapshotting path => path = l.sourcePath
  | .snapshotted (.ok vol) => l.Sends source vol (snapName l.uuid seq)
  | .streaming vol target => l.Sends source vol (snapName l.uuid seq) ∧ target.base = base ∧
      target.destVol = volOf l.destinationPath
  | .streamed (.ok _) => l.Both source dest (snapName l.uuid seq)
  | _ => True

variable {l}

theorem Both.mono {source source' dest dest' : MemBackend} {snap : Text}
    (hs : MemBackend.Grows source source') (hd : MemBackend.Grows dest dest')
    (h : l.Both source dest snap) : l.Both source' dest' snap :=
  ⟨hs.hasSnapshot h.1, hd.hasSnapshot h.2⟩

theorem Sends.mono {source source' : MemBackend} {vol : VolumeUuid} {snap : Text}
    (hs : MemBackend.Grows source source') (h : l.Sends source vol snap) :
    l.Sends source' vol snap := by
  obtain ⟨v, hv, hname, hsnap⟩ := h
  obtain ⟨v', hv', hname'⟩ := hs.volumes vol v hv
  exact ⟨v', hv', hname'.trans hname, hs.hasSnapshot hsnap⟩

theorem PhaseOk.mono {source source' dest dest' : MemBackend} {base : Option Text} {seq : Nat}
    {phase : TransferPhase} (hs : MemBackend.Grows source source') (hd : MemBackend.Grows dest dest')
    (h : l.PhaseOk source dest base seq phase) : l.PhaseOk source' dest' base seq phase := by
  cases phase with
  | snapshotted result =>
    cases result with
    | ok vol => exact Sends.mono hs h
    | error e => trivial
  | streaming vol target => exact ⟨Sends.mono hs h.1, h.2⟩
  | streamed result =>
    cases result with
    | ok bytes => exact Both.mono hs hd h
    | error e => trivial
  | _ => exact h

end Link

/-- The relationship of a call that has begun or is about to. -/
def TransferCall.relationship : TransferCall → Option Text
  | .start uuid => some uuid
  | .held uuid _ _ => some uuid
  | .leaving uuid _ => some uuid
  | _ => none

/-- The two sides and the relationship `rel` between them. -/
structure Shared (l : Link) (x : PairSys) (rel : Relationship) : Prop where
  source : x.source.Consistent
  dest : x.dest.Consistent
  found : x.store.relationships.lookup l.uuid = some rel
  paths : rel.sourcePath = l.sourcePath ∧ rel.destinationPath = l.destinationPath ∧
    rel.peerUuid = l.peerUuid
  peer : ∃ peer, x.store.peers.lookup l.peerUuid = some peer ∧ peer.address ≠ []
  flag : rel.transferInProgress = x.call.holds.isSome
  mine : ∀ u, x.call.relationship = some u → u = l.uuid
  base : ∀ b, rel.base = some b → (∃ k, b = snapName l.uuid k) ∧ l.Both x.source x.dest b
  phase : ∀ u seq phase, x.call = .held u seq phase →
    l.PhaseOk x.source x.dest rel.base seq phase

namespace Shared

variable {l : Link} {x : PairSys} {rel : Relationship}

/-- `s'` is `s` with the relationship rewritten, in what may change about it. -/
structure Rewrites (l : Link) (s : SnapMirrorStore) (rel : Relationship) (s' : SnapMirrorStore)
    (rel' : Relationship) : Prop where
  found : s'.relationships.lookup l.uuid = some rel'
  peers : s'.peers = s.peers
  paths : rel'.sourcePath = rel.sourcePath ∧ rel'.destinationPath = rel.destinationPath ∧
    rel'.peerUuid = rel.peerUuid

theorem rewrites_update {s : SnapMirrorStore} (hrel : s.relationships.lookup l.uuid = some rel)
    {f : Relationship → Relationship}
    (hf : (f rel).sourcePath = rel.sourcePath ∧ (f rel).destinationPath = rel.destinationPath ∧
      (f rel).peerUuid = rel.peerUuid) :
    Rewrites l s rel (s.updateRelationship l.uuid f) (f rel) where
  found := by rw [lookup_updateRelationship, if_pos rfl, hrel, Option.map_some]
  peers := updateRelationship_peers ..
  paths := hf

theorem Rewrites.push {s s' : SnapMirrorStore} {rel' : Relationship} (h : Rewrites l s rel s' rel')
    (t : Transfer) : Rewrites l s rel (s'.pushTransfer l.uuid t) rel' := ⟨h.found, h.peers, h.paths⟩

theorem resumed (h : Shared l x rel) {s' : SnapMirrorStore} {rel' : Relationship} {c' : TransferCall}
    (hr : Rewrites l x.store rel s' rel') (hflag : rel'.transferInProgress = c'.holds.isSome)
    (hmine : ∀ u, c'.relationship = some u → u = l.uuid)
    (hbase : ∀ b, rel'.base = some b → (∃ k, b = snapName l.uuid k) ∧ l.Both x.source x.dest b)
    (hphase : ∀ u seq phase, c' = .held u seq phase →
      l.PhaseOk x.source x.dest rel'.base seq phase) :
    Shared l { x with store := s', call := c' } rel' where
  source := h.source
  dest := h.dest
  found := hr.found
  paths := ⟨hr.paths.1.trans h.paths.1, hr.paths.2.1.trans h.paths.2.1,
    hr.paths.2.2.trans h.paths.2.2⟩
  peer := hr.peers ▸ h.peer
  flag := hflag
  mine := hmine
  base := hbase
  phase := hphase

/-- Growing backends keep what is shared. -/
theorem grow (h : Shared l x rel) {source' dest' : MemBackend} (hs : source'.Consistent)
    (hd : dest'.Consistent) (hsg : MemBackend.Grows x.source source')
    (hdg : MemBackend.Grows x.dest dest') :
    Shared l { x with source := source', dest := dest' } rel where
  source := hs
  dest := hd
  found := h.found
  paths := h.paths
  peer := h.peer
  flag := h.flag
  mine := h.mine
  base b hb := ⟨(h.base b hb).1, (h.base b hb).2.mono hsg hdg⟩
  phase u seq phase hcall := (h.phase u seq phase hcall).mono hsg hdg

/-- The peer is reachable, so there is somewhere to stream to. -/
theorem target_eq (h : Shared l x rel) : ∃ address token, x.store.target l.uuid =
    some ⟨volOf l.destinationPath, address, token, rel.base⟩ := by
  obtain ⟨peer, hpeer, haddress⟩ := h.peer
  refine ⟨peer.address, peer.token, ?_⟩
  unfold target
  rw [h.found, Option.bind_some, h.paths.2.2, hpeer, h.paths.2.1]
  simp [haddress]

/-- A call that holds the guard runs on. -/
theorem resumeHeld (h : Shared l x rel) {seq : Nat} {phase : TransferPhase} {fresh now : Text}
    (hcall : x.call = .held l.uuid seq phase) {r : SnapMirrorStore × TransferCall}
    (hstep : TransferCall.resumeHeld x.store l.uuid seq fresh now phase = some r) :
    ∃ rel', Shared l { x with store := r.1, call := r.2 } rel' := by
  have hup : rel.transferInProgress = true := by rw [h.flag, hcall]; rfl
  have hsame : Rewrites l x.store rel x.store rel := ⟨h.found, rfl, rfl, rfl, rfl⟩
  have hphase := h.phase _ _ _ hcall
  have hmine : ∀ {c : TransferCall}, c.relationship = some l.uuid →
      ∀ u, c.relationship = some u → u = l.uuid := by
    intro c hc u hu
    rw [hc] at hu
    exact (Option.some.inj hu).symm
  -- both failed exits
  have hfail : ∀ (t : Transfer) (response : ApiResponse), ∃ rel', Shared l
      { x with store := x.store.failTransfer l.uuid t, call := .leaving l.uuid response } rel' := by
    intro t response
    have hmark := rewrites_update (f := fun rel => { rel with healthy := false }) h.found
      ⟨rfl, rfl, rfl⟩
    exact ⟨_, h.resumed (hmark.push t) hup (hmine rfl) h.base (by rintro u seq phase ⟨⟩)⟩
  cases phase with
  | snapshotting path => cases hstep
  | snapshotted result =>
    cases result with
    | error e =>
      cases hstep
      exact hfail _ _
    | ok vol =>
      obtain ⟨address, token, htarget⟩ := h.target_eq
      simp only [TransferCall.resumeHeld, htarget] at hstep
      cases hstep
      refine ⟨rel, h.resumed hsame hup (hmine rfl) h.base ?_⟩
      rintro u seq phase ⟨⟩
      exact ⟨hphase, rfl, rfl⟩
  | streaming vol target => cases hstep
  | streamed result =>
    cases result with
    | error e =>
      cases hstep
      exact hfail _ _
    | ok bytes =>
      cases hstep
      have hadvance := rewrites_update
        (f := fun rel => { settle rel with base := some (snapName l.uuid seq) }) h.found
        ⟨settle_sourcePath rel, settle_destinationPath rel, settle_peerUuid rel⟩
      refine ⟨_, h.resumed hadvance ((settle_transferInProgress rel).trans hup) (hmine rfl) ?_ ?_⟩
      · rintro b ⟨⟩
        exact ⟨⟨seq, rfl⟩, hphase⟩
      · rintro u seq phase ⟨⟩
        trivial
  | settling =>
    cases hstep
    have hsettle := rewrites_update (f := settle) h.found
      ⟨settle_sourcePath rel, settle_destinationPath rel, settle_peerUuid rel⟩
    refine ⟨_, h.resumed hsettle ((settle_transferInProgress rel).trans hup) (hmine rfl) ?_ ?_⟩
    · intro b hb
      exact h.base b (settle_base rel ▸ hb)
    · rintro u seq phase ⟨⟩
      trivial
  | recording bytes =>
    cases hstep
    have hmem : l.uuid ∈ x.store.relationships := Finmap.mem_of_lookup_eq_some h.found
    simp only [recordTransfer, if_pos hmem]
    exact ⟨rel, h.resumed (hsame.push _) hup (hmine rfl) h.base (by rintro u seq phase ⟨⟩)⟩

/-- The call runs to the end of its next lock section. -/
theorem resume (h : Shared l x rel) {fresh now : Text} {r : SnapMirrorStore × TransferCall}
    (hstep : x.call.step x.store (.resume fresh now) = some r) :
    ∃ rel', Shared l { x with store := r.1, call := r.2 } rel' := by
  have hmine := h.mine
  cases hcall : x.call with
  | start uuid =>
    rw [hcall] at hstep hmine
    obtain rfl := hmine uuid rfl
    simp only [TransferCall.step] at hstep
    cases hbegin : x.store.beginTransfer l.uuid with
    | error response =>
      rw [hbegin] at hstep
      cases hstep
      refine ⟨rel, h.resumed ⟨h.found, rfl, rfl, rfl, rfl⟩ ?_ ?_ h.base ?_⟩
      · rw [h.flag, hcall]
        rfl
      · rintro u ⟨⟩
      · rintro u seq phase ⟨⟩
    | ok begun =>
      rw [hbegin] at hstep
      obtain ⟨rel₀, hrel₀, -, rfl⟩ := begin_ok hbegin
      rw [h.found] at hrel₀
      cases hrel₀
      cases hstep
      have htake := rewrites_update (f := fun rel => { rel with transferInProgress := true }) h.found
        ⟨rfl, rfl, rfl⟩
      refine ⟨_, h.resumed htake rfl ?_ h.base ?_⟩
      · rintro u ⟨⟩
        rfl
      · rintro u seq phase ⟨⟩
        exact h.paths.1
  | held uuid seq phase =>
    rw [hcall] at hstep hmine
    obtain rfl := hmine uuid rfl
    exact h.resumeHeld hcall hstep
  | leaving uuid response =>
    rw [hcall] at hstep hmine
    obtain rfl := hmine uuid rfl
    cases hstep
    have hclear := rewrites_update (f := fun rel => { rel with transferInProgress := false }) h.found
      ⟨rfl, rfl, rfl⟩
    exact ⟨_, h.resumed hclear rfl (by rintro u ⟨⟩) h.base (by rintro u seq phase ⟨⟩)⟩
  | done response =>
    rw [hcall] at hstep
    cases hstep
  | detached uuid seq job =>
    rw [hcall] at hstep
    cases job <;> cases hstep
  | gone =>
    rw [hcall] at hstep
    cases hstep

end Shared

/-! ## What the jobs do -/

section

variable {debug : Text → String} {say : BackendError → String}

/-- A snapshot job that succeeds has found the volume and made the snapshot. -/
theorem snapshotJob_spec (debug : Text → String) {b : MemBackend} (h : b.Consistent)
    {fresh : SnapshotUuid}
    (hfresh : b.FreshSnapshot fresh) (volName snap : Text) (fails : Option String) :
    (snapshotJob debug b volName snap fails fresh).2.Consistent ∧
      MemBackend.Grows b (snapshotJob debug b volName snap fails fresh).2 ∧
      ∀ vol, (snapshotJob debug b volName snap fails fresh).1 = .ok vol →
        ∃ v, (snapshotJob debug b volName snap fails fresh).2.volumes.lookup vol = some v ∧
          v.name = volName ∧
          (snapshotJob debug b volName snap fails fresh).2.HasSnapshot volName snap := by
  unfold snapshotJob
  split
  · exact ⟨h, .refl b, by rintro vol ⟨⟩⟩
  · split
    · exact ⟨h, .refl b, by rintro vol ⟨⟩⟩
    · next v hfound =>
      obtain ⟨u, hv, rfl⟩ := MemBackend.volumeNamed_some hfound
      have huuid := h.uuid u v hv
      dsimp only
      refine ⟨(MemBackend.createSnapshot_kept h fresh v.uuid snap).consistent,
        MemBackend.createSnapshot_grows hfresh v.uuid snap, ?_⟩
      obtain ⟨snaps, hsnaps⟩ := MemBackend.lookup_snapshots h hv
      unfold MemBackend.createSnapshot
      rw [huuid, hsnaps]
      dsimp only
      split
      · rintro vol ⟨⟩
      · rintro vol ⟨⟩
        exact ⟨v, hv, rfl, u, v, _, hv, rfl, Finmap.lookup_insert _,
          Snapshots.hasNamed_add (hfresh.notMem hsnaps) (.inr rfl)⟩

/-- Nothing befalls the stream. -/
def Weather.Fair (w : Weather) : Prop := w.send = none ∧ w.receive = none ∧ w.reply = none

/-- A stream that the destination would accept: an answer that arrives means that it was applied. -/
theorem postReplicationStream_spec {dest : MemBackend} (hd : dest.Consistent) {w : Weather}
    (hvol : w.destVol ∉ dest.volumes) (hsnap : dest.FreshSnapshot w.destSnap) {destVol snap : Text}
    {bytes : Bytes} {applied : Nat}
    (hok : (dest.receiveStream debug w.destVol w.destSnap destVol (.ok bytes)).1 = .ok applied)
    (hthere : (dest.receiveStream debug w.destVol w.destSnap destVol (.ok bytes)).2.HasSnapshot
      destVol snap) :
    (postReplicationStream debug say dest destVol bytes w).2.Consistent ∧
      MemBackend.Grows dest (postReplicationStream debug say dest destVol bytes w).2 ∧
      (∀ n, (postReplicationStream debug say dest destVol bytes w).1 = .ok n →
        (postReplicationStream debug say dest destVol bytes w).2.HasSnapshot destVol snap) ∧
      (w.Fair → ∃ n, (postReplicationStream debug say dest destVol bytes w).1 = .ok n) := by
  have hkept := fun body => MemBackend.receiveStream_kept hd debug hvol w.destSnap destVol body
  have hgrows := fun body => MemBackend.receiveStream_grows hd debug hvol hsnap destVol body
  unfold postReplicationStream
  cases hreceive : w.receive with
  | some e =>
    have hunfair : ¬ w.Fair := fun hfair => by
      rw [hfair.2.1] at hreceive
      cases hreceive
    dsimp only
    split
    · exact ⟨(hkept _).consistent, hgrows _, by rintro n ⟨⟩, fun hfair => absurd hfair hunfair⟩
    · next hread =>
      -- a body that cannot be read is not applied
      simp [MemBackend.receiveStream, Outcome.toExcept] at hread
    · exact ⟨(hkept _).consistent, hgrows _, by rintro n ⟨⟩, fun hfair => absurd hfair hunfair⟩
  | none =>
    dsimp only
    rw [hok]
    dsimp only [Outcome.toExcept]
    cases hreply : w.reply with
    | some e =>
      refine ⟨(hkept _).consistent, hgrows _, by rintro n ⟨⟩, fun hfair => ?_⟩
      rw [hfair.2.2] at hreply
      cases hreply
    | none => exact ⟨(hkept _).consistent, hgrows _, fun _ _ => hthere, fun _ => ⟨applied, rfl⟩⟩

/-- A stream whose base both sides have is accepted, unless something befalls it; and an answer that
arrives means that the destination has the snapshot. -/
theorem streamJob_spec (debug : Text → String) (say : BackendError → String) {l : Link}
    {source dest : MemBackend} (hs : source.Consistent)
    (hd : dest.Consistent) {vol : VolumeUuid} {seq : Nat}
    (hsends : l.Sends source vol (snapName l.uuid seq)) {target : Target}
    (hdest : target.destVol = volOf l.destinationPath)
    (hbase : ∀ b, target.base = some b → (∃ k, b = snapName l.uuid k) ∧ l.Both source dest b)
    {w : Weather} (hvol : w.destVol ∉ dest.volumes) (hsnap : dest.FreshSnapshot w.destSnap) :
    (streamJob debug say source dest vol (snapName l.uuid seq) target w).2.Consistent ∧
      MemBackend.Grows dest (streamJob debug say source dest vol (snapName l.uuid seq) target w).2 ∧
      (∀ n, (streamJob debug say source dest vol (snapName l.uuid seq) target w).1 = .ok n →
        (streamJob debug say source dest vol (snapName l.uuid seq) target w).2.HasSnapshot
          (volOf l.destinationPath) (snapName l.uuid seq)) ∧
      (w.Fair → ∃ n,
        (streamJob debug say source dest vol (snapName l.uuid seq) target w).1 = .ok n) := by
  obtain ⟨v, hv, hname, hhas⟩ := hsends
  rw [← hname] at hhas
  have hshared : ∀ b ∈ target.base, source.HasSnapshot v.name b := fun b hb =>
    hname ▸ (hbase b hb).2.1
  have hthere : ∀ b ∈ target.base, dest.HasSnapshot target.destVol b := fun b hb =>
    hdest ▸ (hbase b hb).2.2
  have hlines : ∀ b ∈ target.base, b ≠ [] ∧ '\n' ∉ b ∧ '\r' ∉ b := by
    intro b hb
    obtain ⟨⟨k, rfl⟩, -⟩ := hbase b hb
    exact l.snapName_unbroken k
  have hvolume : '\n' ∉ v.name := hname ▸ l.volume_unbroken
  unfold streamJob
  rw [MemBackend.sendStream_ok hs debug hv hhas hshared, ← hdest]
  dsimp only [Outcome.toExcept]
  cases hsend : w.send with
  | some e =>
    refine ⟨hd, .refl dest, by rintro n ⟨⟩, fun hfair => ?_⟩
    rw [hfair.1] at hsend
    cases hsend
  | none =>
    obtain ⟨hok, happlied⟩ := MemBackend.receiveStream_accepts hd debug hvol hsnap hvolume
      (l.snapName_unbroken seq).2 hlines hthere v.sizeBytes
    exact postReplicationStream_spec hd hvol hsnap hok happlied

namespace Shared

variable {l : Link} {x y : PairSys} {rel : Relationship}

/-- The snapshot job ends. -/
theorem snapshot (h : Shared l x rel) {fails : Option String} {fresh : SnapshotUuid}
    (hfresh : x.source.FreshSnapshot fresh)
    (hstep : pairStep debug say l.uuid x (.snapshot fails fresh) = some y) : Shared l y rel := by
  simp only [pairStep] at hstep
  split at hstep
  · next u seq path hcall =>
    obtain rfl := h.mine u (by rw [hcall]; rfl)
    have hpath : path = l.sourcePath := h.phase _ _ _ hcall
    obtain ⟨hcons, hgrows, hmade⟩ := snapshotJob_spec debug h.source hfresh (volOf path)
      (snapName l.uuid seq) fails
    generalize snapshotJob debug x.source (volOf path) (snapName l.uuid seq) fails fresh = job
      at hstep hcons hgrows hmade
    obtain ⟨result, source'⟩ := job
    rw [hcall] at hstep
    cases hstep
    have hgrown := h.grow hcons h.dest hgrows (.refl x.dest)
    refine ⟨hcons, h.dest, h.found, h.paths, h.peer, ?_, ?_, hgrown.base, ?_⟩
    · rw [h.flag, hcall]
      rfl
    · rintro u ⟨⟩
      rfl
    · rintro u seq' phase ⟨⟩
      cases result with
      | error e => trivial
      | ok vol =>
        subst hpath
        exact hmade vol rfl
  · cases hstep

/-- The stream job ends; without bad weather it succeeds. -/
theorem stream (h : Shared l x rel) {w : Weather}
    (hfresh : w.destVol ∉ x.dest.volumes ∧ x.dest.FreshSnapshot w.destSnap)
    (hstep : pairStep debug say l.uuid x (.stream w) = some y) :
    Shared l y rel ∧ (w.Fair → ∀ seq vol target, x.call = .held l.uuid seq (.streaming vol target) →
      ∃ n, y.call = .held l.uuid seq (.streamed (.ok n))) := by
  simp only [pairStep] at hstep
  split at hstep
  · next u seq vol target hcall =>
    obtain rfl := h.mine u (by rw [hcall]; rfl)
    obtain ⟨hsends, htarget, hdest⟩ := h.phase _ _ _ hcall
    obtain ⟨hcons, hgrows, hthere, hfair⟩ := streamJob_spec debug say h.source h.dest
      hsends hdest (fun b hb => h.base b (htarget ▸ hb)) hfresh.1 hfresh.2
    generalize streamJob debug say x.source x.dest vol (snapName l.uuid seq) target w = job
      at hstep hcons hgrows hthere hfair
    obtain ⟨result, dest'⟩ := job
    rw [hcall] at hstep
    cases hstep
    have hgrown := h.grow h.source hcons (.refl x.source) hgrows
    refine ⟨⟨h.source, hcons, h.found, h.paths, h.peer, ?_, ?_, hgrown.base, ?_⟩,
      fun hw seq' vol' target' hcall' => ?_⟩
    · rw [h.flag, hcall]
      rfl
    · rintro u ⟨⟩
      rfl
    · rintro u seq' phase ⟨⟩
      cases result with
      | error e => trivial
      | ok n =>
        obtain ⟨v, hv, hname, hhas⟩ := hsends
        exact ⟨hhas, hthere n rfl⟩
    · obtain ⟨n, rfl⟩ := hfair hw
      rw [hcall] at hcall'
      cases hcall'
      exact ⟨n, rfl⟩
  · cases hstep

theorem over_flag (h : Shared l x rel) (hover : x.call.over = true) :
    rel.transferInProgress = false := by
  rw [h.flag]
  cases hcall : x.call with
  | done response => rfl
  | gone => rfl
  | _ => simp [hcall, TransferCall.over] at hover

/-- The step lemma. -/
theorem step {a : PairAct} (h : Shared l x rel) (hallowed : PairAllowed x a)
    (hstep : pairStep debug say l.uuid x a = some y) : ∃ rel', Shared l y rel' := by
  cases a with
  | transfer =>
    simp only [pairStep] at hstep
    split at hstep
    · next hover =>
      cases hstep
      refine ⟨rel, h.source, h.dest, h.found, h.paths, h.peer, ?_, ?_, h.base, ?_⟩
      · exact h.over_flag hover
      · rintro u ⟨⟩
        rfl
      · rintro u seq phase ⟨⟩
    · cases hstep
  | resume fresh now =>
    obtain ⟨r, hr, rfl⟩ := Option.map_eq_some_iff.mp hstep
    exact h.resume hr
  | snapshot fails fresh => exact ⟨rel, h.snapshot hallowed hstep⟩
  | stream w => exact ⟨rel, (h.stream hallowed hstep).1⟩
  | source op =>
    cases hstep
    exact ⟨rel, h.grow (MemBackend.exec_kept h.source debug hallowed.1).consistent h.dest
      (MemBackend.exec_grows h.source debug hallowed.1 hallowed.2) (.refl x.dest)⟩
  | dest op =>
    cases hstep
    exact ⟨rel, h.grow h.source (MemBackend.exec_kept h.dest debug hallowed.1).consistent
      (.refl x.source) (MemBackend.exec_grows h.dest debug hallowed.1 hallowed.2)⟩

/-- A snapshot that was made is streamed. -/
theorem snapshots (h : Shared l x rel) {seq : Nat}
    (hcall : x.call = .held l.uuid seq (.snapshotting l.sourcePath)) {fresh : SnapshotUuid}
    (hfresh : x.source.FreshSnapshot fresh) {vol : VolumeUuid}
    (hmade : (snapshotJob debug x.source (volOf l.sourcePath) (snapName l.uuid seq) none fresh).1 =
      .ok vol) :
    ∃ y target, Run (pairStep debug say l.uuid) PairAllowed x [.snapshot none fresh, .resume [] []] y ∧
      y.call = .held l.uuid seq (.streaming vol target) ∧ y.dest = x.dest := by
  obtain ⟨y, hjob, hcall', hdest⟩ : ∃ y, pairStep debug say l.uuid x (.snapshot none fresh) = some y ∧
      y.call = .held l.uuid seq (.snapshotted (.ok vol)) ∧ y.dest = x.dest := by
    refine ⟨{ x with
      source := (snapshotJob debug x.source (volOf l.sourcePath) (snapName l.uuid seq) none fresh).2
      call := .held l.uuid seq (.snapshotted (.ok vol)) }, ?_, rfl, rfl⟩
    simp only [pairStep, hcall, hmade, TransferCall.step, Except.mapError, Option.map_some]
  obtain ⟨address, token, htarget⟩ := (h.snapshot hfresh hjob).target_eq
  have hresume : pairStep debug say l.uuid y (.resume [] []) = some { y with
      call := .held l.uuid seq
        (.streaming vol ⟨volOf l.destinationPath, address, token, rel.base⟩) } := by
    simp only [pairStep, hcall', TransferCall.step, TransferCall.resumeHeld, htarget, Option.map_some]
  exact ⟨_, _, .cons hfresh hjob (.cons trivial hresume (.nil _)), rfl, hdest⟩

/-- The run lemma. -/
theorem run {acts : List PairAct} (h : Shared l x rel)
    (hrun : Run (pairStep debug say l.uuid) PairAllowed x acts y) : ∃ rel', Shared l y rel' :=
  hrun.keeps (I := fun x => ∃ rel, Shared l x rel) (fun ha ⟨_, h⟩ hstep => h.step ha hstep) ⟨rel, h⟩

end Shared

end

/-- Two backends and a relationship between them that has not transferred anything yet. -/
structure Link.Joins (l : Link) (x : PairSys) : Prop where
  source : x.source.Consistent
  dest : x.dest.Consistent
  idle : x.call = .gone
  relationship : ∃ rel, x.store.relationships.lookup l.uuid = some rel ∧
    rel.sourcePath = l.sourcePath ∧ rel.destinationPath = l.destinationPath ∧
    rel.peerUuid = l.peerUuid ∧ rel.base = none ∧ rel.transferInProgress = false
  peer : ∃ peer, x.store.peers.lookup l.peerUuid = some peer ∧ peer.address ≠ []

theorem Link.Joins.shared {l : Link} {x : PairSys} (h : l.Joins x) : ∃ rel, Shared l x rel := by
  obtain ⟨rel, hfound, hsource, hdestination, hpeer, hbase, hflag⟩ := h.relationship
  refine ⟨rel, h.source, h.dest, hfound, ⟨hsource, hdestination, hpeer⟩, h.peer, ?_, ?_, ?_, ?_⟩
  · rw [h.idle, hflag]
    rfl
  · intro u hu
    rw [h.idle] at hu
    cases hu
  · intro b hb
    rw [hbase] at hb
    cases hb
  · intro u seq phase hcall
    rw [h.idle] at hcall
    cases hcall

end NessieStore
