import NessieStore.Mirror.Transfer

/-!
# Transfers of one relationship

The flag `transfer_in_progress` belongs to the request's future, the work to its job. As long as the
future lives, the flag is up, and at most one call holds a relationship (`Serial.single`); its number
is one more than the relationship has records (`Serial.numbered`), and each exit adds a record, so the
snapshots that were made lie behind it (`Serial.accounted`).

A dropped future breaks both halves. Its flag comes down while its job runs on, and it leaves no
record: the next transfer takes the same number, runs beside the first one's job and asks for the
same snapshot (`transfers_collide`). Only a future whose snapshot job has already failed can be
dropped without harm (`transfers_serial`).
-/

set_option autoImplicit false

namespace NessieStore

open Lib SnapMirrorStore

/-! ## What was made -/

/-- The snapshots that jobs have made, each with its relationship. -/
def snapshotsMade (x : MirrorSys) (a : MirrorAct) (log : List (Text × Text)) : List (Text × Text) :=
  match a with
  | .call i (.snapshotEnds (.ok _)) =>
    match x.calls[i]?.bind TransferCall.job with
    | some (uuid, seq, .snapshot) => (uuid, snapName uuid seq) :: log
    | _ => log
  | _ => log

/-- The call waits, and its snapshot job is over and has failed. -/
def TransferCall.snapshotFailed : TransferCall → Bool
  | .held _ _ (.snapshotted (.error _)) => true
  | _ => false

/-- A future is dropped only when its snapshot job has failed. -/
def DropsFailed (x : MirrorSys) : MirrorAct → Prop
  | .call i .drop => x.calls[i]?.any TransferCall.snapshotFailed = true
  | _ => True

instance (x : MirrorSys) (a : MirrorAct) : Decidable (DropsFailed x a) := by
  unfold DropsFailed
  split <;> infer_instance

/-- Names differ when the numbers do. -/
theorem snapName_inj {uuid : Text} {m n : Nat} (h : snapName uuid m = snapName uuid n) : m = n := by
  have hdigits : Nat.toDigits 10 m = Nat.toDigits 10 n := by
    have hcons := List.append_cancel_left h
    exact (List.cons.inj hcons).2
  have hvalue : ∀ k, Nat.ofDigitChars 10 (Nat.toDigits 10 k) 0 = k := fun k =>
    Nat.ofDigitChars_toDigits (by decide) (by decide)
  rw [← hvalue m, hdigits, hvalue n]

/-- The snapshot of this transfer exists. -/
def TransferPhase.made : TransferPhase → Bool
  | .snapshotting _ => false
  | .snapshotted (.error _) => false
  | _ => true

/-- `s'` has no relationship that `s` has not, and those it has with the same flag and as many
records. -/
def Within (s s' : SnapMirrorStore) : Prop :=
  ∀ u rel', s'.relationships.lookup u = some rel' → ∃ rel, s.relationships.lookup u = some rel ∧
    rel.transferInProgress = rel'.transferInProgress ∧
    (s'.records u).length = (s.records u).length

namespace Within

theorem refl (s : SnapMirrorStore) : Within s s := fun _ rel h => ⟨rel, h, rfl, rfl⟩

theorem updateRelationship (s : SnapMirrorStore) (uuid : Text) {f : Relationship → Relationship}
    (hf : ∀ rel, (f rel).transferInProgress = rel.transferInProgress) :
    Within s (s.updateRelationship uuid f) := by
  intro u rel' h
  rw [lookup_updateRelationship] at h
  rw [updateRelationship_records]
  split at h
  · obtain ⟨rel, hrel, rfl⟩ := Option.map_eq_some_iff.mp h
    exact ⟨rel, hrel, (hf rel).symm, rfl⟩
  · exact ⟨rel', h, rfl, rfl⟩

theorem createPeer (s : SnapMirrorStore) (fresh freshToken : Text) (body : PeerBody) :
    Within s (s.createPeer fresh freshToken body).2 := by
  unfold SnapMirrorStore.createPeer
  dsimp only
  split <;> exact refl s

theorem deletePeer (s : SnapMirrorStore) (uuid : Text) : Within s (s.deletePeer uuid).2 := by
  unfold SnapMirrorStore.deletePeer
  split
  · exact refl s
  · split <;> exact refl s

theorem patchRelationship (s : SnapMirrorStore) (uuid : Text) (body : RelationshipPatch) :
    Within s (s.patchRelationship uuid body).2 := by
  unfold SnapMirrorStore.patchRelationship
  split
  · exact refl s
  · refine updateRelationship s uuid fun rel => ?_
    unfold applyPatch
    cases body.state <;> rfl

theorem deleteRelationship (s : SnapMirrorStore) (uuid : Text) :
    Within s (s.deleteRelationship uuid).2 := by
  unfold SnapMirrorStore.deleteRelationship
  split
  · exact refl s
  · intro u rel' h
    dsimp only at h
    rw [Map.lookup_erase_eq] at h
    split at h
    · cases h
    · next hu =>
      refine ⟨rel', h, rfl, ?_⟩
      unfold records
      rw [Map.lookup_erase_eq, if_neg hu]

theorem mem {s s' : SnapMirrorStore} (h : Within s s') {u : Text} (hu : u ∈ s'.relationships) :
    u ∈ s.relationships ∧ (s'.records u).length = (s.records u).length := by
  obtain ⟨rel', hrel'⟩ := Finmap.mem_iff.mp hu
  obtain ⟨rel, hrel, -, hlen⟩ := h u rel' hrel'
  exact ⟨Finmap.mem_of_lookup_eq_some hrel, hlen⟩

end Within

/-! ## The invariant -/

structure Serial (x : MirrorSys) (log : List (Text × Text)) : Prop where
  /-- A relationship that a call holds has its flag up. -/
  flag : ∀ u rel, x.store.relationships.lookup u = some rel →
    ∀ c ∈ x.calls, c.holds = some u → rel.transferInProgress = true
  single : ∀ (i j : Nat) (c d : TransferCall) (u : Text), x.calls[i]? = some c →
    x.calls[j]? = some d → c.holds = some u → d.holds = some u → i = j
  /-- No job is on its own. -/
  attached : ∀ c ∈ x.calls, ∀ r, c.job = some r → c.holds = some r.1
  numbered : ∀ u seq phase, u ∈ x.store.relationships → .held u seq phase ∈ x.calls →
    seq = (x.store.records u).length + 1
  unmade : ∀ u seq path, .held u seq (.snapshotting path) ∈ x.calls → (u, snapName u seq) ∉ log
  /-- What was made for a relationship belongs to a record, or to the call that holds it. -/
  accounted : ∀ u name, u ∈ x.store.relationships → (u, name) ∈ log → ∃ k, name = snapName u k ∧
    (k ≤ (x.store.records u).length ∨ ∃ phase, phase.made = true ∧ .held u k phase ∈ x.calls)
  drawn : ∀ u, u ∈ x.store.relationships ∨ (∃ c ∈ x.calls, c.holds = some u) ∨
    (∃ name, (u, name) ∈ log) → u ∈ x.drawn

namespace Serial

theorem new : Serial .new [] where
  flag u rel h := by simp [MirrorSys.new, SnapMirrorStore.new] at h
  single i j c d u h := by simp [MirrorSys.new] at h
  attached c h := by simp [MirrorSys.new] at h
  numbered u seq phase h := absurd h Finmap.notMem_empty
  unmade u seq path h := by simp [MirrorSys.new] at h
  accounted u name h := absurd h Finmap.notMem_empty
  drawn u h := by
    rcases h with h | ⟨c, h, -⟩ | ⟨name, h⟩
    · exact absurd h Finmap.notMem_empty
    · simp [MirrorSys.new] at h
    · simp at h

variable {s : SnapMirrorStore} {calls : List TransferCall} {drawn : Finset Text}
  {log : List (Text × Text)}

theorem within {s' : SnapMirrorStore} (h : Serial ⟨s, calls, drawn⟩ log) (hw : Within s s') :
    Serial ⟨s', calls, drawn⟩ log := by
  refine ⟨?_, h.single, h.attached, ?_, h.unmade, ?_, ?_⟩
  · intro u rel' hrel' c hc hholds
    obtain ⟨rel, hrel, hflag, -⟩ := hw u rel' hrel'
    exact hflag ▸ h.flag u rel hrel c hc hholds
  · intro u seq phase hu hc
    obtain ⟨hu, hlen⟩ := hw.mem hu
    exact hlen ▸ h.numbered u seq phase hu hc
  · intro u name hu hname
    obtain ⟨hu, hlen⟩ := hw.mem hu
    exact hlen ▸ h.accounted u name hu hname
  · rintro u (hu | hrest)
    · exact h.drawn u (.inl (hw.mem hu).1)
    · exact h.drawn u (.inr hrest)

theorem createRelationship (h : Serial ⟨s, calls, drawn⟩ log) {fresh : Text} (hfresh : fresh ∉ drawn)
    (listing : List (Text × Peer)) (body : RelationshipBody) :
    Serial ⟨(s.createRelationship fresh listing body).2, calls, insert fresh drawn⟩ log := by
  have hgrow : Serial ⟨s, calls, insert fresh drawn⟩ log :=
    ⟨h.flag, h.single, h.attached, h.numbered, h.unmade, h.accounted,
      fun u hu => Finset.mem_insert_of_mem (h.drawn u hu)⟩
  unfold SnapMirrorStore.createRelationship
  dsimp only
  split
  · exact hgrow
  · refine ⟨?_, h.single, h.attached, ?_, h.unmade, ?_, ?_⟩
    · intro u rel hrel c hc hholds
      dsimp only at hrel
      rw [Map.lookup_insert_eq] at hrel
      split at hrel
      · next hu => exact absurd (h.drawn u (.inr (.inl ⟨c, hc, hholds⟩))) (hu ▸ hfresh)
      · exact h.flag u rel hrel c hc hholds
    · intro u seq phase hu hc
      rcases Finmap.mem_insert.mp hu with rfl | hu
      · exact absurd (h.drawn u (.inr (.inl ⟨_, hc, rfl⟩))) hfresh
      · exact h.numbered u seq phase hu hc
    · intro u name hu hname
      rcases Finmap.mem_insert.mp hu with rfl | hu
      · exact absurd (h.drawn u (.inr (.inr ⟨name, hname⟩))) hfresh
      · exact h.accounted u name hu hname
    · rintro u (hu | hrest)
      · rcases Finmap.mem_insert.mp hu with rfl | hu
        · exact Finset.mem_insert_self _ _
        · exact Finset.mem_insert_of_mem (h.drawn u (.inl hu))
      · exact Finset.mem_insert_of_mem (h.drawn u (.inr hrest))

theorem arrive (h : Serial ⟨s, calls, drawn⟩ log) (uuid : Text) :
    Serial ⟨s, calls ++ [.start uuid], drawn⟩ log := by
  have hold : ∀ {c : TransferCall}, c ∈ calls ++ [.start uuid] → c ≠ .start uuid → c ∈ calls := by
    intro c hc hne
    rcases List.mem_append.mp hc with hc | hc
    · exact hc
    · exact absurd (List.mem_singleton.mp hc) hne
  have hholder : ∀ {c : TransferCall} {u : Text}, c.holds = some u → c ≠ .start uuid := by
    rintro c u hc rfl
    cases hc
  refine ⟨?_, ?_, ?_, ?_, ?_, ?_, ?_⟩
  · intro u rel hrel c hc hholds
    exact h.flag u rel hrel c (hold hc (hholder hholds)) hholds
  · intro i j c d u hc hd hcu hdu
    refine h.single i j c d u ?_ ?_ hcu hdu
    · exact (getElem?_concat_cases hc).resolve_right (hholder hcu)
    · exact (getElem?_concat_cases hd).resolve_right (hholder hdu)
  · intro c hc r hr
    refine h.attached c (hold hc ?_) r hr
    rintro rfl
    cases hr
  · intro u seq phase hu hc
    exact h.numbered u seq phase hu (hold hc (by simp))
  · intro u seq path hc
    exact h.unmade u seq path (hold hc (by simp))
  · intro u name hu hname
    obtain ⟨k, hk, hrest⟩ := h.accounted u name hu hname
    exact ⟨k, hk, hrest.imp id fun ⟨phase, hmade, hc⟩ => ⟨phase, hmade, List.mem_append_left _ hc⟩⟩
  · rintro u (hu | ⟨c, hc, hholds⟩ | hlog)
    · exact h.drawn u (.inl hu)
    · exact h.drawn u (.inr (.inl ⟨c, hold hc (hholder hholds), hholds⟩))
    · exact h.drawn u (.inr (.inr hlog))

/-! ### One call moves

`c` at position `i` becomes `c'`. The others are told from it by `other`: they hold other
relationships. -/

variable {i : Nat} {c c' : TransferCall}

theorem other (h : Serial ⟨s, calls, drawn⟩ log) (hi : calls[i]? = some c) {u : Text}
    (hc : c.holds = some u) {d : TransferCall} (hd : d ∈ calls.set i c') (hu : d.holds = some u) :
    d = c' := by
  obtain ⟨j, hj⟩ := List.mem_iff_getElem?.mp hd
  rcases getElem?_set_cases hj with ⟨-, heq⟩ | ⟨hne, hj⟩
  · exact heq
  · exact absurd (h.single j i d c u hj hi hu hc) hne

/-- A call that holds nothing it did not hold keeps calls apart. -/
theorem single_set (h : Serial ⟨s, calls, drawn⟩ log) (hi : calls[i]? = some c)
    (hholds : ∀ u, c'.holds = some u → c.holds = some u) :
    ∀ (j k : Nat) (d e : TransferCall) (u : Text), (calls.set i c')[j]? = some d →
      (calls.set i c')[k]? = some e → d.holds = some u → e.holds = some u → j = k := by
  intro j k d e u hd he hdu heu
  have hback : ∀ {m : Nat} {d : TransferCall}, (calls.set i c')[m]? = some d → d.holds = some u →
      ∃ d₀, calls[m]? = some d₀ ∧ d₀.holds = some u := by
    intro m d hd hdu
    rcases getElem?_set_cases hd with ⟨rfl, rfl⟩ | ⟨-, hd⟩
    · exact ⟨c, hi, hholds u hdu⟩
    · exact ⟨d, hd, hdu⟩
  obtain ⟨d₀, hd₀, hdu₀⟩ := hback hd hdu
  obtain ⟨e₀, he₀, heu₀⟩ := hback he heu
  exact h.single j k d₀ e₀ u hd₀ he₀ hdu₀ heu₀

theorem drawn_set (h : Serial ⟨s, calls, drawn⟩ log) (hi : calls[i]? = some c)
    (hholds : ∀ u, c'.holds = some u → c.holds = some u) {u : Text}
    (hu : ∃ d ∈ calls.set i c', d.holds = some u) : u ∈ drawn := by
  obtain ⟨d, hd, hdu⟩ := hu
  rcases List.mem_or_eq_of_mem_set hd with hd | rfl
  · exact h.drawn u (.inr (.inl ⟨d, hd, hdu⟩))
  · exact h.drawn u (.inr (.inl ⟨c, List.mem_of_getElem? hi, hholds u hdu⟩))

/-- How one move of a call changes the store, for a call that takes no relationship: a flag comes
down only with its holder, a record is added only by a holder that ends, and what the call had made is
still accounted for. -/
structure Moved (s : SnapMirrorStore) (c : TransferCall) (s' : SnapMirrorStore) (c' : TransferCall) :
    Prop where
  holds : ∀ u, c'.holds = some u → c.holds = some u
  job : ∀ r, c'.job = some r → c'.holds = some r.1
  waits : ∀ u seq path, c' ≠ .held u seq (.snapshotting path)
  flag : ∀ u rel', s'.relationships.lookup u = some rel' → ∃ rel,
    s.relationships.lookup u = some rel ∧ (rel.transferInProgress = true →
      rel'.transferInProgress = true ∨ c.holds = some u ∧ c'.holds = none)
  records : ∀ u ∈ s'.relationships, (s'.records u).length = (s.records u).length ∨
    (s'.records u).length = (s.records u).length + 1 ∧ c.holds = some u ∧
      ∀ seq phase, c' ≠ .held u seq phase
  number : ∀ u seq phase, c' = .held u seq phase → ∃ phase', c = .held u seq phase'
  made : ∀ u ∈ s'.relationships, ∀ seq phase, c = .held u seq phase → phase.made = true →
    seq = (s.records u).length + 1 → seq ≤ (s'.records u).length ∨
      ∃ phase', phase'.made = true ∧ c' = .held u seq phase'

theorem move {s' : SnapMirrorStore} (h : Serial ⟨s, calls, drawn⟩ log) (hi : calls[i]? = some c)
    (hm : Moved s c s' c') : Serial ⟨s', calls.set i c', drawn⟩ log := by
  have hpresent : ∀ {u : Text}, u ∈ s'.relationships → u ∈ s.relationships := by
    intro u hu
    obtain ⟨rel', hrel'⟩ := Finmap.mem_iff.mp hu
    obtain ⟨rel, hrel, -⟩ := hm.flag u rel' hrel'
    exact Finmap.mem_of_lookup_eq_some hrel
  have hcalls : c ∈ calls := List.mem_of_getElem? hi
  refine ⟨?_, h.single_set hi hm.holds, ?_, ?_, ?_, ?_, ?_⟩
  · intro u rel' hrel' d hd hdu
    obtain ⟨rel, hrel, hflag⟩ := hm.flag u rel' hrel'
    have hold : rel.transferInProgress = true := by
      rcases List.mem_or_eq_of_mem_set hd with hd | rfl
      · exact h.flag u rel hrel d hd hdu
      · exact h.flag u rel hrel c hcalls (hm.holds u hdu)
    rcases hflag hold with hup | ⟨hcu, hdown⟩
    · exact hup
    · rw [h.other hi hcu hd hdu, hdown] at hdu
      cases hdu
  · intro d hd r hr
    rcases List.mem_or_eq_of_mem_set hd with hd | rfl
    · exact h.attached d hd r hr
    · exact hm.job r hr
  · intro u seq phase hu hd
    have hseq : seq = (s.records u).length + 1 := by
      rcases List.mem_or_eq_of_mem_set hd with hd | heq
      · exact h.numbered u seq phase (hpresent hu) hd
      · obtain ⟨phase', hc⟩ := hm.number u seq phase heq.symm
        exact h.numbered u seq phase' (hpresent hu) (hc ▸ hcalls)
    rcases hm.records u hu with hlen | ⟨-, hcu, hend⟩
    · exact hlen ▸ hseq
    · exact absurd (h.other hi hcu hd rfl).symm (hend seq phase)
  · intro u seq path hd
    rcases List.mem_or_eq_of_mem_set hd with hd | heq
    · exact h.unmade u seq path hd
    · exact absurd heq.symm (hm.waits u seq path)
  · intro u name hu hname
    obtain ⟨k, hk, hrest⟩ := h.accounted u name (hpresent hu) hname
    refine ⟨k, hk, ?_⟩
    dsimp only at hrest ⊢
    rcases hrest with hle | ⟨phase, hmade, hd⟩
    · rcases hm.records u hu with hlen | ⟨hlen, -, -⟩
      · exact .inl (by omega)
      · exact .inl (by omega)
    · rcases eq_or_mem_set hi hd c' with rfl | hstays
      · have hseq := h.numbered u k phase (hpresent hu) hcalls
        rcases hm.made u hu k phase rfl hmade hseq with hle | ⟨phase', hmade', rfl⟩
        · exact .inl hle
        · exact .inr ⟨phase', hmade', mem_set_of_getElem? hi⟩
      · exact .inr ⟨phase, hmade, hstays⟩
  · rintro u (hu | hcall | hlog)
    · exact h.drawn u (.inl (hpresent hu))
    · exact h.drawn_set hi hm.holds hcall
    · exact h.drawn u (.inr (.inr hlog))

/-- A transfer begins where none was. -/
theorem begin (h : Serial ⟨s, calls, drawn⟩ log) {uuid : Text} (hi : calls[i]? = some (.start uuid))
    {rel : Relationship} (hrel : s.relationships.lookup uuid = some rel)
    (hdown : rel.transferInProgress = false) (path : Text) :
    Serial ⟨s.updateRelationship uuid fun rel => { rel with transferInProgress := true },
      calls.set i (.held uuid ((s.records uuid).length + 1) (.snapshotting path)), drawn⟩ log := by
  have hfree : ∀ d ∈ calls, d.holds ≠ some uuid := by
    intro d hd hdu
    rw [h.flag uuid rel hrel d hd hdu] at hdown
    cases hdown
  have huuid : uuid ∈ s.relationships := Finmap.mem_of_lookup_eq_some hrel
  refine ⟨?_, ?_, ?_, ?_, ?_, ?_, ?_⟩
  · intro u rel' hrel' d hd hdu
    dsimp only at hrel'
    rw [lookup_updateRelationship] at hrel'
    split at hrel'
    · obtain ⟨rel₀, -, rfl⟩ := Option.map_eq_some_iff.mp hrel'
      rfl
    · next hne =>
      rcases List.mem_or_eq_of_mem_set hd with hd | rfl
      · exact h.flag u rel' hrel' d hd hdu
      · exact absurd (Option.some.inj hdu).symm hne
  · intro j k d e u hd he hdu heu
    rcases getElem?_set_cases hd with ⟨rfl, rfl⟩ | ⟨-, hd'⟩ <;>
      rcases getElem?_set_cases he with ⟨rfl, rfl⟩ | ⟨-, he'⟩
    · rfl
    · cases hdu
      exact absurd heu (hfree e (List.mem_of_getElem? he'))
    · cases heu
      exact absurd hdu (hfree d (List.mem_of_getElem? hd'))
    · exact h.single j k d e u hd' he' hdu heu
  · intro d hd r hr
    rcases List.mem_or_eq_of_mem_set hd with hd | rfl
    · exact h.attached d hd r hr
    · cases hr
      rfl
  · intro u seq phase hu hd
    simp only [mem_updateRelationship, updateRelationship_records] at hu ⊢
    rcases List.mem_or_eq_of_mem_set hd with hd | heq
    · exact h.numbered u seq phase hu hd
    · cases heq
      rfl
  · intro u seq path' hd
    rcases List.mem_or_eq_of_mem_set hd with hd | heq
    · exact h.unmade u seq path' hd
    · cases heq
      intro hname
      obtain ⟨k, hk, hle | ⟨phase, -, hd⟩⟩ := h.accounted uuid _ huuid hname
      · dsimp only at hle
        have := snapName_inj hk
        omega
      · exact hfree _ hd rfl
  · intro u name hu hname
    simp only [mem_updateRelationship, updateRelationship_records] at hu ⊢
    obtain ⟨k, hk, hle | ⟨phase, hmade, hd⟩⟩ := h.accounted u name hu hname
    · exact ⟨k, hk, .inl hle⟩
    · rcases eq_or_mem_set hi hd _ with heq | hstays
      · cases heq
      · exact ⟨k, hk, .inr ⟨phase, hmade, hstays⟩⟩
  · rintro u (hu | ⟨d, hd, hdu⟩ | hlog)
    · exact h.drawn u (.inl ((mem_updateRelationship ..).mp hu))
    · rcases List.mem_or_eq_of_mem_set hd with hd | rfl
      · exact h.drawn u (.inr (.inl ⟨d, hd, hdu⟩))
      · cases hdu
        exact h.drawn uuid (.inl huuid)
    · exact h.drawn u (.inr (.inr hlog))

/-- The snapshot of the call that holds the relationship is made. -/
theorem log_made (h : Serial ⟨s, calls, drawn⟩ log) {uuid : Text} {seq : Nat} {phase : TransferPhase}
    (hi : calls[i]? = some (.held uuid seq phase)) (hmade : phase.made = true) :
    Serial ⟨s, calls, drawn⟩ ((uuid, snapName uuid seq) :: log) := by
  refine ⟨h.flag, h.single, h.attached, h.numbered, ?_, ?_, ?_⟩
  · intro u seq' path hd hname
    rcases List.mem_cons.mp hname with heq | hname
    · obtain ⟨j, hj⟩ := List.mem_iff_getElem?.mp hd
      -- the other call would hold the same relationship
      obtain rfl := h.single i j _ _ u hi hj (congrArg some (Prod.mk.inj heq).1.symm) rfl
      rw [hi] at hj
      cases hj
      cases hmade
    · exact h.unmade u seq' path hd hname
  · intro u name hu hname
    rcases List.mem_cons.mp hname with heq | hname
    · cases heq
      exact ⟨seq, rfl, .inr ⟨phase, hmade, List.mem_of_getElem? hi⟩⟩
    · exact h.accounted u name hu hname
  · rintro u (hu | hcall | ⟨name, hname⟩)
    · exact h.drawn u (.inl hu)
    · exact h.drawn u (.inr (.inl hcall))
    · rcases List.mem_cons.mp hname with heq | hname
      · cases heq
        exact h.drawn uuid (.inr (.inl ⟨_, List.mem_of_getElem? hi, rfl⟩))
      · exact h.drawn u (.inr (.inr ⟨name, hname⟩))

/-! ### What the moves are -/

/-- A transfer goes on to its next phase. -/
theorem moved_on {s' : SnapMirrorStore} (hw : Within s s') {uuid : Text} {seq : Nat}
    {phase phase' : TransferPhase} (hmade : phase.made = true → phase'.made = true)
    (hwaits : ∀ path, phase' ≠ .snapshotting path) :
    Moved s (.held uuid seq phase) s' (.held uuid seq phase') where
  holds _ hu := hu
  job r hr := by
    cases phase' <;> cases hr <;> rfl
  waits u seq' path heq := by
    cases heq
    exact hwaits path rfl
  flag u rel' hrel' := by
    obtain ⟨rel, hrel, hflag, -⟩ := hw u rel' hrel'
    exact ⟨rel, hrel, fun hup => .inl (hflag ▸ hup)⟩
  records u hu := .inl (hw.mem hu).2
  number u seq' phase₀ heq := by
    cases heq
    exact ⟨phase, rfl⟩
  made u hu seq' phase₀ heq hm _ := by
    cases heq
    exact .inr ⟨phase', hmade hm, rfl⟩

/-- A transfer that is over, with its record pushed or its relationship gone. -/
theorem moved_recorded {s' : SnapMirrorStore} {uuid : Text} {seq : Nat} {phase : TransferPhase}
    {response : ApiResponse}
    (hflag : ∀ u rel', s'.relationships.lookup u = some rel' → ∃ rel,
      s.relationships.lookup u = some rel ∧ rel.transferInProgress = rel'.transferInProgress)
    (hsame : ∀ u, u ≠ uuid → s'.records u = s.records u)
    (hmore : uuid ∈ s'.relationships →
      (s'.records uuid).length = (s.records uuid).length + 1) :
    Moved s (.held uuid seq phase) s' (.leaving uuid response) where
  holds _ hu := hu
  job r hr := by cases hr
  waits u seq' path heq := by cases heq
  flag u rel' hrel' := by
    obtain ⟨rel, hrel, heq⟩ := hflag u rel' hrel'
    exact ⟨rel, hrel, fun hup => .inl (heq ▸ hup)⟩
  records u hu := by
    by_cases h : u = uuid
    · subst h
      exact .inr ⟨hmore hu, rfl, fun _ _ heq => by cases heq⟩
    · exact .inl (congrArg List.length (hsame u h))
  number u seq' phase' heq := by cases heq
  made u hu seq' phase' heq _ hseq := by
    cases heq
    exact .inl (by rw [hmore hu, hseq])

/-- A call gives its relationship back, with nothing made that is not recorded. -/
theorem moved_out {uuid : Text} (hc : c.holds = some uuid) (hc' : c'.holds = none)
    (hjob : c'.job = none) (hmade : ∀ u seq phase, c = .held u seq phase → phase.made = false) :
    Moved s c (s.dropGuard uuid) c' where
  holds u hu := by
    rw [hc'] at hu
    cases hu
  job r hr := by
    rw [hjob] at hr
    cases hr
  waits u seq path heq := by
    rw [heq] at hc'
    cases hc'
  flag u rel' hrel' := by
    unfold dropGuard at hrel'
    rw [lookup_updateRelationship] at hrel'
    split at hrel'
    · next hu =>
      obtain ⟨rel, hrel, -⟩ := Option.map_eq_some_iff.mp hrel'
      exact ⟨rel, hrel, fun _ => .inr ⟨hu ▸ hc, hc'⟩⟩
    · exact ⟨rel', hrel', .inl⟩
  records u _ := .inl (by rw [dropGuard, updateRelationship_records])
  number u seq phase heq := by
    rw [heq] at hc'
    cases hc'
  made u _ seq phase heq hm _ := by
    rw [hmade u seq phase heq] at hm
    cases hm

/-- A call that holds nothing ends. -/
theorem moved_idle (hc : c.holds = none) {response : ApiResponse} :
    Moved s c s (.done response) where
  holds u hu := by cases hu
  job r hr := by cases hr
  waits u seq path heq := by cases heq
  flag u rel' hrel' := ⟨rel', hrel', .inl⟩
  records u _ := .inl rfl
  number u seq phase heq := by cases heq
  made u _ seq phase heq := by
    rw [heq] at hc
    cases hc

theorem moved_failed {uuid : Text} {seq : Nat} {phase : TransferPhase} {response : ApiResponse}
    (t : Transfer) :
    Moved s (.held uuid seq phase) (s.failTransfer uuid t) (.leaving uuid response) := by
  refine moved_recorded ?_ ?_ ?_
  · intro u rel' hrel'
    obtain ⟨rel, hrel, hflag, -⟩ := Within.updateRelationship s uuid
      (f := fun rel => { rel with healthy := false }) (fun _ => rfl) u rel' hrel'
    exact ⟨rel, hrel, hflag⟩
  · intro u hu
    rw [failTransfer, records_pushTransfer, if_neg hu, updateRelationship_records]
  · intro _
    rw [failTransfer, records_pushTransfer, if_pos rfl, updateRelationship_records,
      List.length_append, List.length_singleton]

theorem moved_finished {uuid : Text} {seq : Nat} {phase : TransferPhase} (t : Transfer) :
    Moved s (.held uuid seq phase) (s.recordTransfer uuid t).2
      (.leaving uuid (s.recordTransfer uuid t).1) := by
  unfold recordTransfer
  split
  · refine moved_recorded (fun u rel' hrel' => ⟨rel', hrel', rfl⟩) ?_ ?_
    · intro u hu
      rw [records_pushTransfer, if_neg hu]
    · intro _
      rw [records_pushTransfer, if_pos rfl, List.length_append, List.length_singleton]
  · next habsent =>
    exact moved_recorded (fun u rel' hrel' => ⟨rel', hrel', rfl⟩) (fun _ _ => rfl)
      fun hmem => absurd hmem habsent

theorem resumeHeld {uuid fresh now : Text} {seq : Nat} {phase : TransferPhase}
    {r : SnapMirrorStore × TransferCall}
    (hstep : TransferCall.resumeHeld s uuid seq fresh now phase = some r) :
    Moved s (.held uuid seq phase) r.1 r.2 := by
  cases phase with
  | snapshotting path => cases hstep
  | snapshotted result =>
    cases result with
    | error e =>
      cases hstep
      exact moved_failed _
    | ok vol =>
      simp only [TransferCall.resumeHeld] at hstep
      split at hstep <;> cases hstep <;>
        exact moved_on (.refl s) (fun _ => rfl) (by simp)
  | streaming vol target => cases hstep
  | streamed result =>
    cases result with
    | error e =>
      cases hstep
      exact moved_failed _
    | ok bytes =>
      cases hstep
      have hw : Within s (s.advanceBase uuid (snapName uuid seq)) :=
        .updateRelationship s uuid settle_transferInProgress
      exact moved_on hw (fun _ => rfl) (by simp)
  | settling =>
    cases hstep
    have hw : Within s (s.settleOnly uuid) := .updateRelationship s uuid settle_transferInProgress
    exact moved_on hw (fun _ => rfl) (by simp)
  | recording bytes =>
    cases hstep
    exact moved_finished _

/-- One call moves. -/
theorem callStep (h : Serial ⟨s, calls, drawn⟩ log) {ev : TransferEvent}
    (hdrop : DropsFailed ⟨s, calls, drawn⟩ (.call i ev)) (hi : calls[i]? = some c)
    {s' : SnapMirrorStore} (hstep : TransferCall.step s c ev = some (s', c')) :
    Serial ⟨s', calls.set i c', drawn⟩
      (snapshotsMade ⟨s, calls, drawn⟩ (.call i ev) log) := by
  cases c with
  | start uuid =>
    cases ev <;> simp only [TransferCall.step, reduceCtorEq] at hstep
    case resume fresh now =>
      cases hbegin : s.beginTransfer uuid with
      | error response =>
        rw [hbegin] at hstep
        cases hstep
        exact h.move hi (moved_idle rfl)
      | ok begun =>
        rw [hbegin] at hstep
        obtain ⟨rel, hrel, hflag, rfl⟩ := begin_ok hbegin
        cases hstep
        exact h.begin hi hrel hflag rel.sourcePath
  | held uuid seq phase =>
    cases ev with
    | resume fresh now => exact h.move hi (resumeHeld hstep)
    | snapshotEnds result =>
      cases phase <;> simp only [TransferCall.step, reduceCtorEq] at hstep
      case snapshotting path =>
        cases hstep
        have hmoved : Serial ⟨s, calls.set i (.held uuid seq (.snapshotted result)), drawn⟩ log :=
          h.move hi (moved_on (.refl s) (fun hmade => by cases hmade) (by simp))
        cases result with
        | error e => exact hmoved
        | ok vol =>
          have hset := hmoved.log_made
            (List.getElem?_set_self (List.getElem?_eq_some_iff.mp hi).1) rfl
          simpa only [snapshotsMade, hi, Option.bind_some, TransferCall.job] using hset
    | streamEnds result =>
      cases phase <;> simp only [TransferCall.step, reduceCtorEq] at hstep
      cases hstep
      exact h.move hi (moved_on (.refl s) (fun _ => rfl) (by simp))
    | drop =>
      have hfailed : (TransferCall.held uuid seq phase).snapshotFailed = true := by
        simpa only [DropsFailed, hi, Option.any_some] using hdrop
      obtain ⟨e, rfl⟩ : ∃ e, phase = .snapshotted (.error e) := by
        unfold TransferCall.snapshotFailed at hfailed
        split at hfailed
        · next heq =>
          cases heq
          exact ⟨_, rfl⟩
        · cases hfailed
      cases hstep
      refine h.move hi (moved_out rfl rfl rfl ?_)
      rintro u seq phase ⟨⟩
      rfl
  | leaving uuid response =>
    cases ev <;> simp only [TransferCall.step, reduceCtorEq] at hstep
    cases hstep
    refine h.move hi (moved_out rfl rfl rfl ?_)
    rintro u seq phase ⟨⟩
  | done response => cases ev <;> cases hstep
  | detached uuid seq job =>
    -- a job on its own is attached to nothing
    have hheld := h.attached _ (List.mem_of_getElem? hi) _ rfl
    cases hheld
  | gone => cases ev <;> cases hstep

/-- The step lemma. -/
theorem step {x y : MirrorSys × List (Text × Text)} {a : MirrorAct} (hdrop : DropsFailed x.1 a)
    (h : Serial x.1 x.2) (hstep : watch mirrorStep snapshotsMade x a = some y) :
    Serial y.1 y.2 := by
  obtain ⟨⟨s, calls, drawn⟩, log⟩ := x
  obtain ⟨y, log'⟩ := y
  obtain ⟨hsys, hlog⟩ := watch_eq_some.mp hstep
  dsimp only at h hsys hlog hdrop ⊢
  subst hlog
  cases a with
  | createPeer fresh freshToken body =>
    cases hsys
    exact h.within (.createPeer s fresh freshToken body)
  | deletePeer uuid =>
    cases hsys
    exact h.within (.deletePeer s uuid)
  | createRelationship fresh listing body =>
    simp only [mirrorStep] at hsys
    split at hsys
    · next hnew =>
      cases hsys
      exact h.createRelationship hnew.1 listing body
    · cases hsys
  | patchRelationship uuid body =>
    cases hsys
    exact h.within (.patchRelationship s uuid body)
  | deleteRelationship uuid =>
    cases hsys
    exact h.within (.deleteRelationship s uuid)
  | createTransfer uuid =>
    cases hsys
    exact h.arrive uuid
  | call i ev =>
    obtain ⟨r, hr, rfl⟩ := Option.map_eq_some_iff.mp hsys
    obtain ⟨c, s', c', hc, hmove, rfl⟩ := stepAt_eq_some.mp hr
    exact h.callStep hdrop hc hmove

end Serial

/-- Every interleaving of transfers with each other and with the handlers, in which no future is
dropped unless its snapshot job has failed: a relationship has at most one job running, and a
snapshot job never has a name that was made for its relationship before. -/
theorem transfers_serial {acts : List MirrorAct} {x : MirrorSys} {log : List (Text × Text)}
    (hrun : Run (watch mirrorStep snapshotsMade) (fun y a => DropsFailed y.1 a) (MirrorSys.new, [])
      acts (x, log)) :
    (∀ (i j : Nat) (c d : TransferCall) (u : Text) (m n : Nat × TransferJob), x.calls[i]? = some c →
        x.calls[j]? = some d → c.job = some (u, m) → d.job = some (u, n) → i = j) ∧
      ∀ c ∈ x.calls, ∀ u seq, c.job = some (u, seq, .snapshot) → (u, snapName u seq) ∉ log := by
  have hinv : Serial x log := hrun.keeps (I := fun y => Serial y.1 y.2) Serial.step Serial.new
  refine ⟨?_, ?_⟩
  · intro i j c d u m n hc hd hcjob hdjob
    exact hinv.single i j c d u hc hd (hinv.attached c (List.mem_of_getElem? hc) _ hcjob)
      (hinv.attached d (List.mem_of_getElem? hd) _ hdjob)
  · intro c hc u seq hjob
    have hholds := hinv.attached c hc _ hjob
    cases c with
    | held uuid seq' phase =>
      cases phase <;> cases hjob
      exact hinv.unmade _ _ _ hc
    | detached uuid seq' job => cases hholds
    | _ => cases hjob

/-! ## Runs -/

/-- A relationship `r` and two transfers of it; the first has begun. -/
def twoTransfers : List MirrorAct :=
  [.createRelationship "r".toList [] ⟨some "svm:v".toList, some "svm:w".toList, none, none⟩,
    .createTransfer "r".toList, .createTransfer "r".toList, .call 0 (.resume [] [])]

/-- The first one's snapshot fails and its client goes; the second one begins with its number. -/
def droppedFailed : List MirrorAct :=
  twoTransfers ++ [.call 0 (.snapshotEnds (.error "no volume")), .call 0 .drop,
    .call 1 (.resume [] [])]

theorem transfers_serial_dropped : ∃ y,
    run (watch mirrorStep snapshotsMade) (fun y a => DropsFailed y.1 a) (MirrorSys.new, [])
      droppedFailed = some y ∧
    (y.1.calls.map TransferCall.job = [none, some ("r".toList, 1, .snapshot)]) ∧
    ∀ c ∈ y.1.calls, ∀ u seq, c.job = some (u, seq, .snapshot) → (u, snapName u seq) ∉ y.2 := by
  obtain ⟨y, hrun, hjobs⟩ : ∃ y, run (watch mirrorStep snapshotsMade)
      (fun y a => DropsFailed y.1 a) (MirrorSys.new, []) droppedFailed = some y ∧
      y.1.calls.map TransferCall.job = [none, some ("r".toList, 1, .snapshot)] :=
    run_exists (by decide +kernel)
  exact ⟨y, hrun, hjobs, (transfers_serial (run_sound hrun)).2⟩

/-- The first one's client goes while the snapshot job runs, and the second one begins: two jobs of
`r` run. The first one ends and has made the snapshot that the second one is about to ask for. -/
theorem transfers_collide : ∃ y z,
    run (watch mirrorStep snapshotsMade) (fun _ _ => True) (MirrorSys.new, [])
      (twoTransfers ++ [.call 0 .drop, .call 1 (.resume [] [])]) = some y ∧
    y.1.calls.map TransferCall.job =
      [some ("r".toList, 1, .snapshot), some ("r".toList, 1, .snapshot)] ∧
    watch mirrorStep snapshotsMade y (.call 0 (.snapshotEnds (.ok ⟨0⟩))) = some z ∧
    z.1.calls.map TransferCall.job = [none, some ("r".toList, 1, .snapshot)] ∧
    ("r".toList, snapName "r".toList 1) ∈ z.2 := by
  obtain ⟨y, hrun, hjobs, hnext⟩ : ∃ y,
      run (watch mirrorStep snapshotsMade) (fun _ _ => True) (MirrorSys.new, [])
        (twoTransfers ++ [.call 0 .drop, .call 1 (.resume [] [])]) = some y ∧
      y.1.calls.map TransferCall.job =
        [some ("r".toList, 1, .snapshot), some ("r".toList, 1, .snapshot)] ∧
      (watch mirrorStep snapshotsMade y (.call 0 (.snapshotEnds (.ok ⟨0⟩)))).any (fun z =>
        decide (z.1.calls.map TransferCall.job = [none, some ("r".toList, 1, .snapshot)] ∧
          ("r".toList, snapName "r".toList 1) ∈ z.2)) = true :=
    run_exists (by decide +kernel)
  obtain ⟨z, hz, hmade⟩ := (Option.any_eq_true _ _).mp hnext
  obtain ⟨hjobs', hmem⟩ := of_decide_eq_true hmade
  exact ⟨y, z, hrun, hjobs, hz, hjobs', hmem⟩

end NessieStore
