import NessieStore.Store.Sequential

/-!
# Healing and the capacity of a `write_only` store

Calls one after the other on a `write_only` store over a disk: `put_keyed`, `quarantine`, files that
lose their tail, and restarts. A charge is the admitted length of a blob until the store is opened
again, and then what its file measures. A re-put of a charged digest is free and writes the true
length. So a blob that was truncated before a restart is charged too little, other blobs take the
room, and its re-put brings the store past its capacity: `heals_past_capacity`.

A quarantine whose stat fails has the same effect: it leaves the charge and keeps the bytes.

`heals_within_capacity` says when it does not happen. A free re-put must be no longer than the file
it replaces, or no longer than the charge while the charges are within capacity, and the stat of a
quarantine must not fail. A directory whose files were never shortened before they were counted meets
this.
-/

set_option autoImplicit false

namespace NessieStore

open Lib

inductive Op
  | putKeyed (d : Digest) (src : Bytes) (evs : List WriteEvent)
  | quarantine (d : Digest) (stat : Option String)
  /-- The file of `d` now holds fewer bytes. -/
  | shorten (d : Digest) (bytes : Bytes)
  /-- `DiskCas::open`, then `CasStore::new` over what the directory lists. -/
  | restart (now : Nat) (blobs : List LocalBlob) (aside : List QuarantinedBlob)

def Op.step (H : HashFn) (s : CasStore) : Op → Option CasStore
  | .putKeyed d src evs => (s.putKeyed H d src evs).map Prod.snd
  | .quarantine d stat => some (s.quarantine d stat).2
  | .shorten d bytes =>
    match s.inner.size d with
    | some n =>
      if bytes.length < n then
        some { s with inner := { s.inner with blobs := s.inner.blobs.insert d bytes } }
      else none
    | none => none
  | .restart now blobs aside =>
    if s.inner.IterLocal blobs ∧ s.inner.IterQuarantine aside then
      some (.new { s.inner with commitLock := false } s.mode now blobs aside)
    else none

/-- Every byte the directory retains. -/
def LocalCas.retained (c : LocalCas) : Nat := c.liveBytes + c.quarantineBytes

/-- A re-put of a digest that is charged or held is no longer than its file, or no longer than its
charge while the charges are within capacity; and no quarantine fails after its rename. -/
def FreeReputsFit (capacity : Nat) (s : CasStore) : Op → Prop
  | .putKeyed d src _ =>
    (s.state.accounted.lookup d).isSome = true ∨ s.inner.has d = true →
      src.length ≤ (s.inner.size d).getD 0 ∨
        src.length ≤ (s.state.accounted.lookup d).getD 0 ∧ s.committed ≤ capacity
  | .quarantine _ stat => stat = none
  | _ => True

instance (capacity : Nat) (s : CasStore) : (op : Op) → Decidable (FreeReputsFit capacity s op)
  | .putKeyed _ _ _ => inferInstanceAs (Decidable (_ → _))
  | .quarantine _ stat => inferInstanceAs (Decidable (stat = none))
  | .shorten _ _ | .restart _ _ _ => .isTrue trivial

/-- Every live file is charged at least its length, every quarantined one exactly. -/
structure HealInv (capacity : Nat) (s : CasStore) : Prop where
  mode : s.mode = .writeOnly capacity
  disk : s.inner.kind = .disk
  mirror : s.committed = s.state.committed
  books : s.state.committed = Map.total id s.state.accounted + Map.total id s.state.quarantined
  aside : ∀ id, s.state.quarantined.lookup id = (s.inner.quarantined.lookup id).map List.length
  cover : ∀ d b, s.inner.blobs.lookup d = some b →
    b.length ≤ (s.state.accounted.lookup d).getD 0

namespace HealInv

variable {H : HashFn} {capacity : Nat} {s t : CasStore}

theorem retained_le (h : HealInv capacity s) : s.inner.retained ≤ s.state.committed := by
  have hlive := Map.total_le_of_lookup (f := List.length) (g := id) (m := s.inner.blobs)
    (n := s.state.accounted) (fun _ => 0) fun d b hb => by
      have hcover := h.cover d b hb
      cases hacc : s.state.accounted.lookup d <;> simp_all
  have haside : Map.total List.length s.inner.quarantined = Map.total id s.state.quarantined :=
    Map.total_congr fun id => by rw [h.aside]; simp
  have hbooks := h.books
  simp only [Finset.sum_const_zero, add_zero] at hlive
  unfold LocalCas.retained LocalCas.liveBytes LocalCas.quarantineBytes
  omega

theorem sameBooks (h : HealInv capacity s) (hb : SameBooks s t) : HealInv capacity t where
  mode := hb.mode.trans h.mode
  disk := by rw [hb.inner]; exact h.disk
  mirror := by rw [hb.mirror, hb.committed, h.mirror]
  books := by rw [hb.committed, hb.accounted, hb.quarantined, h.books]
  aside := by rw [hb.inner, hb.quarantined]; exact h.aside
  cover := by rw [hb.inner, hb.accounted]; exact h.cover

/-- A landing whose bytes are charged. -/
theorem land (h : HealInv capacity s) {d : Digest} {src : Bytes}
    (hsrc : src.length ≤ (s.state.accounted.lookup d).getD 0) :
    HealInv capacity (s.land d src) where
  mode := h.mode
  disk := by simpa [CasStore.land] using h.disk
  mirror := h.mirror
  books := h.books
  aside := by simpa [CasStore.land] using h.aside
  cover := by
    intro d' b hb
    simp only [CasStore.land, LocalCas.lookup_land_disk h.disk] at hb
    split at hb
    · next hd => cases hb; rw [hd]; exact hsrc
    · exact h.cover d' b hb

/-- A landing that is charged next. -/
theorem landAccount (h : HealInv capacity s) {d : Digest} {src : Bytes}
    (hnew : s.state.accounted.lookup d = none) :
    HealInv capacity ((s.land d src).account d src.length) := by
  by_cases h0 : src.length = 0
  · rw [CasStore.account_of_free (.inl h0)]
    exact h.land (by omega)
  · rw [CasStore.account_of_new h0 (show (s.land d src).state.accounted.lookup d = none from hnew)]
    exact {
      mode := h.mode
      disk := by simpa [CasStore.land] using h.disk
      mirror := rfl
      books := by
        have hbooks := h.books
        simp only [CasStore.land, Map.total_insert_new hnew, id]
        omega
      aside := by simpa [CasStore.land] using h.aside
      cover := by
        intro d' b hb
        simp only [CasStore.land, LocalCas.lookup_land_disk h.disk, Map.lookup_insert_eq] at hb ⊢
        split at hb
        · next hd => cases hb; rw [if_pos hd]; exact le_refl _
        · next hd => rw [if_neg hd]; exact h.cover d' b hb }

/-- Where a free re-put fits, its bytes are charged. -/
theorem charged_of_fits (h : HealInv capacity s) {d : Digest} {src : Bytes} {evs : List WriteEvent}
    (hK : FreeReputsFit capacity s (.putKeyed d src evs))
    (held : (s.state.accounted.lookup d).isSome = true ∨ s.inner.has d = true) :
    src.length ≤ (s.state.accounted.lookup d).getD 0 := by
  rcases hK held with hfile | ⟨hcharge, -⟩
  · cases hb : s.inner.blobs.lookup d with
    | none =>
      simp only [LocalCas.size, hb, Option.map_none, Option.getD_none] at hfile
      omega
    | some b =>
      have hcover := h.cover d b hb
      simp only [LocalCas.size, hb, Option.map_some, Option.getD_some] at hfile
      omega
  · exact hcharge

theorem wrote (h : HealInv capacity s) {d : Digest} {src : Bytes} {evs : List WriteEvent}
    (hK : FreeReputsFit capacity s (.putKeyed d src evs)) (hw : CasStore.Wrote H s d src t) :
    HealInv capacity t := by
  cases hw with
  | cached hv hm hb => rw [h.mode] at hm; cases hm
  | again hv hm held hb => exact (h.land (h.charged_of_fits hK held)).sameBooks hb
  | admitted hv hm hnew hfits hb => exact (h.landAccount hnew).sameBooks hb

theorem quarantine (h : HealInv capacity s) (d : Digest) :
    HealInv capacity (s.quarantine d none).2 := by
  rcases s.quarantine_cases d none with hsame | ⟨-, bytes, hb, hq | ⟨hstat, -⟩⟩
  · rw [hsame]
    exact h
  · rw [hq]
    have hslot : s.state.quarantined.lookup ⟨d, s.inner.freeSlot d⟩ = none := by
      rw [h.aside, LocalCas.lookup_freeSlot]
      rfl
    exact {
      mode := h.mode
      disk := h.disk
      mirror := rfl
      books := CasStore.moveCharge_books h.books hslot
      aside := by
        intro id
        simp only [CasStore.moveCharge, LocalCas.setAside, Map.lookup_insert_eq]
        split
        · rfl
        · exact h.aside id
      cover := by
        intro d' b hb'
        simp only [CasStore.moveCharge, LocalCas.setAside, Map.lookup_erase_eq] at hb' ⊢
        split at hb'
        · cases hb'
        · next hd => rw [if_neg hd]; exact h.cover d' b hb' }
  · exact absurd rfl hstat

theorem new {inner : LocalCas} {now : Nat} {blobs : List LocalBlob}
    {quarantine : List QuarantinedBlob} (hdisk : inner.kind = .disk) (hl : inner.IterLocal blobs)
    (hq : inner.IterQuarantine quarantine) :
    HealInv capacity (.new inner (.writeOnly capacity) now blobs quarantine) where
  mode := rfl
  disk := hdisk
  mirror := rfl
  books := CasStore.new_committed hl hq
  aside := CasStore.new_quarantined hq
  cover := fun d b hb => by
    rw [CasStore.new_accounted hl, LocalCas.size, show inner.blobs.lookup d = some b from hb]
    exact le_refl _

/-- The step lemma. -/
theorem step (h : HealInv capacity s) {op : Op} (hK : FreeReputsFit capacity s op)
    (hs : Op.step H s op = some t) : HealInv capacity t := by
  cases op with
  | putKeyed d src evs =>
    obtain ⟨⟨out, t'⟩, hput, rfl⟩ := Option.map_eq_some_iff.mp hs
    obtain ⟨-, hspec⟩ := CasStore.putKeyed_spec hput
    cases out with
    | ok u => exact h.wrote hK hspec
    | error e => exact h.sameBooks hspec
  | quarantine d stat =>
    obtain rfl : stat = none := hK
    cases hs
    exact h.quarantine d
  | shorten d bytes =>
    simp only [Op.step] at hs
    split at hs
    · next n hn =>
      split at hs
      · next hshort =>
        cases hs
        refine { h with cover := fun d' b hb => ?_ }
        simp only [Map.lookup_insert_eq] at hb
        split at hb
        · next hd =>
          cases hb
          obtain ⟨b₀, hb₀, rfl⟩ := Option.map_eq_some_iff.mp hn
          have hcover := h.cover d b₀ hb₀
          rw [hd]
          show bytes.length ≤ (s.state.accounted.lookup d).getD 0
          omega
        · exact h.cover d' b hb
      · cases hs
    · cases hs
  | restart now blobs aside =>
    simp only [Op.step] at hs
    split at hs
    · next hl =>
      cases hs
      rw [h.mode]
      exact .new h.disk hl.1 hl.2
    · cases hs

end HealInv

theorem liveBytes_land {s : CasStore} (hdisk : s.inner.kind = .disk) (d : Digest) (src : Bytes) :
    (s.land d src).inner.liveBytes + (s.inner.size d).getD 0 = s.inner.liveBytes + src.length := by
  simp only [CasStore.land, LocalCas.land, hdisk, LocalCas.liveBytes, LocalCas.size]
  cases hb : s.inner.blobs.lookup d with
  | none => exact Map.total_insert_new hb src
  | some b => exact Map.total_insert_old hb src

theorem retained_land {s : CasStore} (hdisk : s.inner.kind = .disk) (d : Digest) (src : Bytes) :
    (s.land d src).inner.retained + (s.inner.size d).getD 0 = s.inner.retained + src.length := by
  have hlive := liveBytes_land hdisk d src
  have haside : (s.land d src).inner.quarantineBytes = s.inner.quarantineBytes := by
    simp [LocalCas.quarantineBytes, CasStore.land]
  unfold LocalCas.retained
  omega

/-- **Healing within capacity.** In every sequence of `put_keyed`, `quarantine`, truncations and
restarts on a `write_only` disk store, opened over any directory, in which every free re-put fits and
no quarantine's stat fails: a
`put_keyed` that returns `Ok` leaves the live and quarantined files together within the capacity, or
within what they were before the call. -/
theorem heals_within_capacity {H : HashFn} {capacity : Nat} (hcap : capacity < u64Max)
    {inner : LocalCas} (hdisk : inner.kind = .disk) {now : Nat} {blobs : List LocalBlob}
    {aside : List QuarantinedBlob} (hl : inner.IterLocal blobs) (hq : inner.IterQuarantine aside)
    {ops : List Op} {s t : CasStore}
    (hrun : Run (Op.step H) (FreeReputsFit capacity) (.new inner (.writeOnly capacity) now blobs aside)
      ops s)
    {d : Digest} {src : Bytes} {evs : List WriteEvent}
    (hfit : FreeReputsFit capacity s (.putKeyed d src evs))
    (hput : s.putKeyed H d src evs = some (.ok (), t)) :
    t.inner.retained ≤ max capacity s.inner.retained := by
  have h : HealInv capacity s := hrun.keeps (fun hK hI hs => hI.step hK hs) (.new hdisk hl hq)
  obtain ⟨-, hwrote⟩ := CasStore.putKeyed_spec hput
  have hland := retained_land h.disk d src
  have hretained := h.retained_le
  have hmirror := h.mirror
  cases hwrote with
  | cached hv hm hb => rw [h.mode] at hm; cases hm
  | again hv hm held hb =>
    rw [hb.inner]
    rcases hfit held with hfile | ⟨hcharge, hcommitted⟩
    · omega
    · have hafter := (h.land hcharge).retained_le
      simp only [CasStore.land] at hafter ⊢
      omega
  | admitted hv hm hnew hfits hb =>
    rw [h.mode] at hm
    cases hm
    rw [hb.inner, CasStore.account_inner]
    unfold fits saturatingAdd at hfits
    have hroom := of_decide_eq_true hfits
    omega

/-- Capacity ten: six bytes are written, truncated to one and counted as one at a restart; nine more
bytes are admitted; the re-put of the six is free and leaves fifteen on disk. -/
theorem heals_past_capacity :
    ∃ s, run (Op.step .short) (fun _ _ => True) (.new ⟨.disk, ∅, ∅, false⟩ (.writeOnly 10) 0 [] [])
        [.putKeyed (.compute .short [1, 2, 3, 4, 5, 6]) [1, 2, 3, 4, 5, 6]
            (gatedWrite [1, 2, 3, 4, 5, 6]),
          .shorten (.compute .short [1, 2, 3, 4, 5, 6]) [1],
          .restart 0 [⟨.compute .short [1, 2, 3, 4, 5, 6], 1⟩] [],
          .putKeyed (.compute .short [9, 9, 9, 9, 9, 9, 9, 9, 9]) [9, 9, 9, 9, 9, 9, 9, 9, 9]
            (gatedWrite [9, 9, 9, 9, 9, 9, 9, 9, 9])] = some s ∧
      s.inner.retained = 10 ∧
      (s.putKeyed .short (.compute .short [1, 2, 3, 4, 5, 6]) [1, 2, 3, 4, 5, 6]
        (fastWrite [1, 2, 3, 4, 5, 6])).map (fun r => (r.1, r.2.inner.retained)) =
        some (.ok (), 15) :=
  run_exists (by decide +kernel)

/-- The rule at work: the truncated file is quarantined before the restart, and its re-put is charged
and refused by nobody. -/
theorem heals_within_capacity_after_quarantine :
    ∃ s t, run (Op.step .short) (FreeReputsFit 10)
        (.new ⟨.disk, Finmap.singleton (.compute .short [1, 2, 3]) [1], ∅, false⟩ (.writeOnly 10) 0
          [⟨.compute .short [1, 2, 3], 1⟩] [])
        [.quarantine (.compute .short [1, 2, 3]) none] = some s ∧
      s.putKeyed .short (.compute .short [1, 2, 3]) [1, 2, 3] (gatedWrite [1, 2, 3]) =
        some (.ok (), t) ∧
      t.inner.retained ≤ max 10 s.inner.retained := by
  have hrun : ∃ s, run (Op.step .short) (FreeReputsFit 10)
        (.new ⟨.disk, Finmap.singleton (.compute .short [1, 2, 3]) [1], ∅, false⟩ (.writeOnly 10) 0
          [⟨.compute .short [1, 2, 3], 1⟩] [])
        [.quarantine (.compute .short [1, 2, 3]) none] = some s ∧
      FreeReputsFit 10 s (.putKeyed (.compute .short [1, 2, 3]) [1, 2, 3] (gatedWrite [1, 2, 3])) ∧
      ((s.putKeyed .short (.compute .short [1, 2, 3]) [1, 2, 3] (gatedWrite [1, 2, 3])).any
        fun r => r.1 = .ok ()) = true :=
    run_exists (by decide +kernel)
  obtain ⟨s, hs, hfit, hany⟩ := hrun
  obtain ⟨⟨out, t⟩, hput, hok⟩ := (Option.any_eq_true _ _).mp hany
  have hok : out = .ok () := of_decide_eq_true hok
  subst hok
  exact ⟨s, t, hs, hput, heals_within_capacity (by decide) rfl (by decide) (by decide)
    (run_sound hs) hfit hput⟩

end NessieStore
