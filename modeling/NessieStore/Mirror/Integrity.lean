import NessieStore.Mirror.Transfer

/-!
# References between peers, relationships and records

A relationship refers to a peer, and the records of its transfers are filed under its uuid. Peers
that are referred to are not deleted, and a record is only ever filed by a transfer of that
relationship (`Integrity`).

That records go with their relationship holds only in part. A transfer that succeeds looks whether its
relationship is still there before it files its record; the two failed exits do not
(`SnapMirrorStore.failTransfer`), so a relationship that is deleted while its transfer is on the way
to fail leaves an entry that nothing removes (`snapmirror_orphaned_records`). While failing transfers
find their relationship, the references hold (`snapmirror_integrity`).
-/

set_option autoImplicit false

namespace NessieStore

open Lib SnapMirrorStore

/-! ## What a step files -/

/-- The record that a transfer files when it runs on from this phase. -/
def TransferPhase.files (uuid : Text) (seq : Nat) (fresh now : Text) : TransferPhase → Option Transfer
  | .snapshotted (.error _) => some (TransferCall.failedRecord fresh now [])
  | .streamed (.error _) => some (TransferCall.failedRecord fresh now (snapName uuid seq))
  | .recording bytes => some (TransferCall.successRecord fresh now (snapName uuid seq) bytes)
  | _ => none

/-- The record that a step of a call files, with the relationship of the call. -/
def TransferCall.files : TransferCall → TransferEvent → Option (Text × Transfer)
  | .held uuid seq phase, .resume fresh now => (phase.files uuid seq fresh now).map (uuid, ·)
  | _, _ => none

/-- The records that transfers have produced, each with the relationship of its transfer. -/
def filed (x : MirrorSys) (a : MirrorAct) (log : List (Text × Transfer)) : List (Text × Transfer) :=
  match a with
  | .call i ev => (x.calls[i]?.bind fun c => c.files ev).toList ++ log
  | _ => log

/-- A transfer in this phase returns by a failed exit. -/
def TransferPhase.failing : TransferPhase → Bool
  | .snapshotted (.error _) => true
  | .streamed (.error _) => true
  | _ => false

/-- A transfer that leaves by a failed exit finds its relationship. -/
def FailsWhilePresent (x : MirrorSys) : MirrorAct → Prop
  | .call i (.resume _ _) =>
    match x.calls[i]? with
    | some (.held uuid _ phase) => phase.failing = true → uuid ∈ x.store.relationships
    | _ => True
  | _ => True

instance (x : MirrorSys) (a : MirrorAct) : Decidable (FailsWhilePresent x a) := by
  unfold FailsWhilePresent
  split
  · split <;> infer_instance
  · infer_instance

/-! ## The invariant -/

structure Integrity (s : SnapMirrorStore) (log : List (Text × Transfer)) : Prop where
  peerUuid : ∀ u p, s.peers.lookup u = some p → p.uuid = u
  peers : ∀ u rel, s.relationships.lookup u = some rel → rel.peerUuid ≠ [] → rel.peerUuid ∈ s.peers
  transfers : ∀ u, u ∈ s.transfers → u ∈ s.relationships
  records : ∀ u t, t ∈ s.records u → (u, t) ∈ log

namespace Integrity

variable {s : SnapMirrorStore} {log : List (Text × Transfer)}

theorem new : Integrity .new [] where
  peerUuid u p h := by simp [SnapMirrorStore.new] at h
  peers u rel h := by simp [SnapMirrorStore.new] at h
  transfers u h := absurd h Finmap.notMem_empty
  records u t h := by simp [SnapMirrorStore.new, SnapMirrorStore.records] at h

theorem createPeer (h : Integrity s log) (fresh freshToken : Text) (body : PeerBody) :
    Integrity (s.createPeer fresh freshToken body).2 log := by
  unfold SnapMirrorStore.createPeer
  dsimp only
  split
  · exact h
  · refine ⟨?_, ?_, h.transfers, h.records⟩
    · intro u p hp
      rw [Map.lookup_insert_eq] at hp
      split at hp
      · next hu => cases hp; exact hu.symm
      · exact h.peerUuid u p hp
    · intro u rel hrel hne
      exact Finmap.mem_insert.mpr (.inr (h.peers u rel hrel hne))

theorem deletePeer (h : Integrity s log) (uuid : Text) : Integrity (s.deletePeer uuid).2 log := by
  unfold SnapMirrorStore.deletePeer
  split
  · exact h
  · split
    · exact h
    · next hfree =>
      refine ⟨?_, ?_, h.transfers, h.records⟩
      · intro u p hp
        rw [Map.lookup_erase_eq] at hp
        split at hp
        · cases hp
        · exact h.peerUuid u p hp
      · intro u rel hrel hne
        refine Finmap.mem_erase.mpr ⟨fun heq => hfree ?_, h.peers u rel hrel hne⟩
        exact ⟨u, Finmap.mem_keys.mpr (Finmap.mem_of_lookup_eq_some hrel), by simp [hrel, heq]⟩

/-- A peer that is chosen is listed. -/
theorem choosePeer_mem {listing : List (Text × Peer)} {wanted : Option Text}
    (hne : choosePeer listing wanted ≠ []) : ∃ q ∈ listing, q.2.uuid = choosePeer listing wanted := by
  have hsome : ∀ {o : Option (Text × Peer)}, (∀ q, o = some q → q ∈ listing) → ∀ {u : Text},
      o.map (·.2.uuid) = some u → ∃ q ∈ listing, q.2.uuid = u := by
    intro o ho u hu
    obtain ⟨q, hq, rfl⟩ := Option.map_eq_some_iff.mp hu
    exact ⟨q, ho q hq, rfl⟩
  unfold choosePeer at hne ⊢
  dsimp only at hne ⊢
  cases hby : wanted.bind fun name => (listing.find? (·.2.name = name)).map (·.2.uuid) with
  | some u =>
    obtain ⟨name, -, hfind⟩ := Option.bind_eq_some_iff.mp hby
    obtain ⟨q, hq, hu⟩ := hsome (fun q hq => List.mem_of_find?_eq_some hq) hfind
    exact ⟨q, hq, by simpa using hu⟩
  | none =>
    rw [hby] at hne
    cases hhead : listing.head?.map (·.2.uuid) with
    | none => simp [hhead] at hne
    | some u =>
      obtain ⟨q, hq, hu⟩ := hsome (fun q hq => List.mem_of_head? hq) hhead
      exact ⟨q, hq, by simpa using hu⟩

theorem createRelationship (h : Integrity s log) (fresh : Text) {listing : List (Text × Peer)}
    (hlist : Map.Lists s.peers listing) (body : RelationshipBody) :
    Integrity (s.createRelationship fresh listing body).2 log := by
  unfold SnapMirrorStore.createRelationship
  dsimp only
  split
  · exact h
  · refine ⟨h.peerUuid, ?_, ?_, h.records⟩
    · intro u rel hrel hne
      rw [Map.lookup_insert_eq] at hrel
      split at hrel
      · cases hrel
        obtain ⟨⟨v, p⟩, hq, huuid⟩ := choosePeer_mem hne
        have hp := (hlist.2 v p).mp hq
        rw [h.peerUuid v p hp] at huuid
        dsimp only at huuid ⊢
        rw [← huuid]
        exact Finmap.mem_of_lookup_eq_some hp
      · exact h.peers u rel hrel hne
    · intro u hu
      exact Finmap.mem_insert.mpr (.inr (h.transfers u hu))

theorem updateRelationship (h : Integrity s log) (uuid : Text) {f : Relationship → Relationship}
    (hf : ∀ rel, (f rel).peerUuid = rel.peerUuid) : Integrity (s.updateRelationship uuid f) log := by
  refine ⟨?_, ?_, ?_, ?_⟩
  · simpa using h.peerUuid
  · intro u rel hrel hne
    rw [lookup_updateRelationship] at hrel
    rw [updateRelationship_peers]
    split at hrel
    · obtain ⟨rel', hrel', rfl⟩ := Option.map_eq_some_iff.mp hrel
      rw [hf] at hne ⊢
      exact h.peers u rel' hrel' hne
    · exact h.peers u rel hrel hne
  · simpa using h.transfers
  · simpa using h.records

theorem patchRelationship (h : Integrity s log) (uuid : Text) (body : RelationshipPatch) :
    Integrity (s.patchRelationship uuid body).2 log := by
  unfold SnapMirrorStore.patchRelationship
  split
  · exact h
  · refine h.updateRelationship uuid fun rel => ?_
    unfold applyPatch
    cases body.state <;> rfl

theorem deleteRelationship (h : Integrity s log) (uuid : Text) :
    Integrity (s.deleteRelationship uuid).2 log := by
  unfold SnapMirrorStore.deleteRelationship
  split
  · exact h
  · refine ⟨h.peerUuid, ?_, ?_, ?_⟩
    · intro u rel hrel hne
      rw [Map.lookup_erase_eq] at hrel
      split at hrel
      · cases hrel
      · exact h.peers u rel hrel hne
    · intro u hu
      obtain ⟨hne, hu⟩ := Finmap.mem_erase.mp hu
      exact Finmap.mem_erase.mpr ⟨hne, h.transfers u hu⟩
    · intro u t ht
      unfold SnapMirrorStore.records at ht
      rw [Map.lookup_erase_eq] at ht
      split at ht
      · simp at ht
      · exact h.records u t ht

/-- A record is filed where its relationship is. -/
theorem pushTransfer (h : Integrity s log) {uuid : Text} (hmem : uuid ∈ s.relationships)
    (t : Transfer) : Integrity (s.pushTransfer uuid t) ((uuid, t) :: log) := by
  refine ⟨h.peerUuid, h.peers, ?_, ?_⟩
  · intro u hu
    rcases Finmap.mem_insert.mp hu with rfl | hu
    · exact hmem
    · exact h.transfers u hu
  · intro u t' ht'
    rw [records_pushTransfer] at ht'
    split at ht'
    · next hu =>
      rcases List.mem_append.mp ht' with ht' | ht'
      · exact List.mem_cons_of_mem _ (h.records u t' ht')
      · rw [List.mem_singleton.mp ht', hu]
        exact List.mem_cons_self
    · exact List.mem_cons_of_mem _ (h.records u t' ht')

theorem more (h : Integrity s log) (entry : Text × Transfer) : Integrity s (entry :: log) :=
  ⟨h.peerUuid, h.peers, h.transfers, fun u t ht => List.mem_cons_of_mem _ (h.records u t ht)⟩

theorem failTransfer (h : Integrity s log) {uuid : Text} (hmem : uuid ∈ s.relationships)
    (t : Transfer) : Integrity (s.failTransfer uuid t) ((uuid, t) :: log) := by
  have hmarked : Integrity (s.updateRelationship uuid fun rel => { rel with healthy := false }) log :=
    h.updateRelationship uuid fun _ => rfl
  exact hmarked.pushTransfer ((mem_updateRelationship ..).mpr hmem) t

/-- A call that holds the guard runs on; a failed exit needs its relationship. -/
theorem resumeHeld (h : Integrity s log) {uuid fresh now : Text} {seq : Nat} {phase : TransferPhase}
    {r : SnapMirrorStore × TransferCall}
    (hpresent : phase.failing = true → uuid ∈ s.relationships)
    (hstep : TransferCall.resumeHeld s uuid seq fresh now phase = some r) :
    Integrity r.1
      (((TransferCall.held uuid seq phase).files (.resume fresh now)).toList ++ log) := by
  cases phase with
  | snapshotting path => cases hstep
  | snapshotted result =>
    cases result with
    | error e =>
      cases hstep
      exact h.failTransfer (hpresent rfl) _
    | ok vol =>
      simp only [TransferCall.resumeHeld] at hstep
      split at hstep <;> cases hstep <;> exact h
  | streaming vol target => cases hstep
  | streamed result =>
    cases result with
    | error e =>
      cases hstep
      exact h.failTransfer (hpresent rfl) _
    | ok bytes =>
      cases hstep
      exact h.updateRelationship uuid settle_peerUuid
  | settling =>
    cases hstep
    exact h.updateRelationship uuid settle_peerUuid
  | recording bytes =>
    cases hstep
    unfold recordTransfer
    split
    · next hmem => exact h.pushTransfer hmem _
    · exact h.more _

theorem transferStep (h : Integrity s log) {c : TransferCall} {ev : TransferEvent}
    {r : SnapMirrorStore × TransferCall}
    (hpresent : ∀ uuid seq phase fresh now, c = .held uuid seq phase → ev = .resume fresh now →
      phase.failing = true → uuid ∈ s.relationships)
    (hstep : TransferCall.step s c ev = some r) : Integrity r.1 ((c.files ev).toList ++ log) := by
  have hguard : ∀ uuid, Integrity (s.dropGuard uuid) log := fun uuid =>
    h.updateRelationship uuid fun _ => rfl
  cases c with
  | start uuid =>
    cases ev <;> simp only [TransferCall.step, reduceCtorEq] at hstep
    case resume fresh now =>
      cases hbegin : s.beginTransfer uuid with
      | error response =>
        rw [hbegin] at hstep
        cases hstep
        exact h
      | ok begun =>
        rw [hbegin] at hstep
        cases hstep
        obtain ⟨rel, -, -, hs⟩ := begin_ok hbegin
        rw [hs]
        exact h.updateRelationship uuid fun _ => rfl
  | held uuid seq phase =>
    cases ev with
    | resume fresh now => exact h.resumeHeld (hpresent uuid seq phase fresh now rfl rfl) hstep
    | snapshotEnds result =>
      cases phase <;> simp only [TransferCall.step, reduceCtorEq] at hstep
      cases hstep
      exact h
    | streamEnds result =>
      cases phase <;> simp only [TransferCall.step, reduceCtorEq] at hstep
      cases hstep
      exact h
    | drop =>
      obtain ⟨c', -, rfl⟩ := Option.map_eq_some_iff.mp hstep
      exact hguard uuid
  | leaving uuid response =>
    cases ev <;> simp only [TransferCall.step, reduceCtorEq] at hstep
    cases hstep
    exact hguard uuid
  | done response => cases ev <;> cases hstep
  | detached uuid seq job =>
    cases job <;> cases ev <;> simp only [TransferCall.step, reduceCtorEq] at hstep
    all_goals
      cases hstep
      exact h
  | gone => cases ev <;> cases hstep

/-- The step lemma. -/
theorem step {x y : MirrorSys × List (Text × Transfer)} {a : MirrorAct}
    (hpresent : FailsWhilePresent x.1 a) (h : Integrity x.1.store x.2)
    (hstep : watch mirrorStep filed x a = some y) : Integrity y.1.store y.2 := by
  obtain ⟨x, log⟩ := x
  obtain ⟨y, log'⟩ := y
  obtain ⟨hsys, hlog⟩ := watch_eq_some.mp hstep
  dsimp only at h hsys hlog hpresent ⊢
  subst hlog
  cases a with
  | createPeer fresh freshToken body =>
    cases hsys
    exact h.createPeer fresh freshToken body
  | deletePeer uuid =>
    cases hsys
    exact h.deletePeer uuid
  | createRelationship fresh listing body =>
    simp only [mirrorStep] at hsys
    split at hsys
    · next hnew =>
      cases hsys
      exact h.createRelationship fresh hnew.2 body
    · cases hsys
  | patchRelationship uuid body =>
    cases hsys
    exact h.patchRelationship uuid body
  | deleteRelationship uuid =>
    cases hsys
    exact h.deleteRelationship uuid
  | createTransfer uuid =>
    cases hsys
    exact h
  | call i ev =>
    obtain ⟨r, hr, rfl⟩ := Option.map_eq_some_iff.mp hsys
    obtain ⟨c, s', c', hc, hmove, rfl⟩ := stepAt_eq_some.mp hr
    have hkept := h.transferStep (fun uuid seq phase fresh now heq hev => by
      subst heq hev
      simpa only [FailsWhilePresent, hc] using hpresent) hmove
    simpa only [filed, hc, Option.bind_some] using hkept

end Integrity

/-- Every interleaving of the handlers and of transfers, cut at their lock sections and awaits, with
jobs that end as they like: while a transfer that leaves by a failed exit finds its relationship, a
relationship's peer is registered, records are filed under relationships that exist, and a
relationship lists only records of its own transfers. -/
theorem snapmirror_integrity {acts : List MirrorAct} {x : MirrorSys} {log : List (Text × Transfer)}
    (hrun : Run (watch mirrorStep filed) (fun y a => FailsWhilePresent y.1 a) (MirrorSys.new, []) acts
      (x, log)) :
    (∀ u rel, x.store.relationships.lookup u = some rel → rel.peerUuid ≠ [] →
        rel.peerUuid ∈ x.store.peers) ∧
      (∀ u, u ∈ x.store.transfers → u ∈ x.store.relationships) ∧
      ∀ u t, t ∈ x.store.records u → (u, t) ∈ log := by
  have hinv : Integrity x.store log :=
    hrun.keeps (I := fun y => Integrity y.1.store y.2) Integrity.step Integrity.new
  exact ⟨hinv.peers, hinv.transfers, hinv.records⟩

/-! ## Runs -/

/-- A relationship `r` without a peer, and a transfer of it that has begun. -/
def begunTransfer : List MirrorAct :=
  [.createRelationship "r".toList [] ⟨some "svm:v".toList, some "svm:w".toList, none, none⟩,
    .createTransfer "r".toList, .call 0 (.resume [] [])]

/-- Its snapshot fails, which is recorded, and so is the success of the next one. -/
def recordedTransfers : List MirrorAct :=
  begunTransfer ++ [.call 0 (.snapshotEnds (.error "no volume")),
    .call 0 (.resume "f".toList "then".toList), .call 0 (.resume [] []), .createTransfer "r".toList,
    .call 1 (.resume [] []), .call 1 (.snapshotEnds (.ok ⟨0⟩)), .call 1 (.resume [] []),
    .call 1 (.resume [] []), .call 1 (.resume "t".toList "now".toList)]

theorem snapmirror_integrity_recorded : ∃ y,
    run (watch mirrorStep filed) (fun y a => FailsWhilePresent y.1 a) (MirrorSys.new, [])
      recordedTransfers = some y ∧
    (y.1.store.records "r".toList).map (·.state) = ["failed".toList, "success".toList] ∧
    (∀ u, u ∈ y.1.store.transfers → u ∈ y.1.store.relationships) ∧
    ∀ u t, t ∈ y.1.store.records u → (u, t) ∈ y.2 := by
  obtain ⟨y, hrun, hstates⟩ : ∃ y, run (watch mirrorStep filed) (fun y a => FailsWhilePresent y.1 a)
      (MirrorSys.new, []) recordedTransfers = some y ∧
        (y.1.store.records "r".toList).map (·.state) = ["failed".toList, "success".toList] :=
    run_exists (by decide +kernel)
  exact ⟨y, hrun, hstates, (snapmirror_integrity (run_sound hrun)).2⟩

/-- The relationship is deleted while its snapshot job runs, and the job then fails: the failure is
filed under a relationship that does not exist. -/
theorem snapmirror_orphaned_records : ∃ y,
    run (watch mirrorStep filed) (fun _ _ => True) (MirrorSys.new, [])
      (begunTransfer ++ [.deleteRelationship "r".toList, .call 0 (.snapshotEnds (.error "no volume")),
        .call 0 (.resume "t".toList "now".toList)]) = some y ∧
    "r".toList ∈ y.1.store.transfers ∧ "r".toList ∉ y.1.store.relationships :=
  run_exists (by decide +kernel)

end NessieStore
