import NessieStore.Store.Intact
import NessieStore.Swarm.Network

/-!
# What a node keeps

A node of a swarm whose disks are intact changes in few ways: its store moves, it receives a blob, a
client's call begins or proceeds, it is restarted. None of these changes its configuration, its peers
or its mode, and in `write_only` mode none takes a blob away (`SwarmNode.Grows`). `SwarmNode.Inv` is
what they keep.
-/

set_option autoImplicit false

namespace NessieStore

open Lib

variable {H : HashFn}

/-! ## Writes that have published -/

/-- The write has published, and may have returned. -/
def Phase.wrote : Phase → Bool
  | .returned (.ok _) => true
  | phase => phase.landed

/-- The write is one of `d`, and has published. -/
def Putter.wrote (d : Digest) : Putter → Bool
  | .keyed w => w.expected = d && w.phase.wrote
  | _ => false

/-- The store holds what its writes have published. -/
def Sys.HoldsWrites (x : Sys) : Prop :=
  ∀ p ∈ x.puts, ∀ d, p.wrote d = true → x.store.inner.has d = true

theorem Phase.wrote_iff {ph : Phase} :
    ph.wrote = true ↔ ph.landed = true ∨ ph = .returned (.ok ()) := by
  unfold wrote
  split
  · simp
  · next hne => simpa using fun h => absurd h (hne ())

/-- A write that moves holds what it has published, if it did before. -/
theorem Putter.has_of_wrote {s s' : CasStore} {p p' : Putter} {ev : WriteEvent}
    (hs : Putter.step H s p ev = some (s', p'))
    (h : ∀ d, p.wrote d = true → s.inner.has d = true) {d : Digest}
    (hd : p'.wrote d = true) : s'.inner.has d = true := by
  rcases Putter.step_cases hs with ⟨w, w', rfl, rfl, hmove⟩ | ⟨rfl, got, rfl, hp'⟩
  · simp only [wrote, Bool.and_eq_true, decide_eq_true_eq] at hd h
    obtain ⟨rfl, hdone⟩ := hd
    have hland : w.phase.landed = true → s.inner.has w.expected = true :=
      fun hl => h _ ⟨rfl, Phase.wrote_iff.mpr (.inl hl)⟩
    rcases Phase.wrote_iff.mp hdone with hl | hret
    · exact hmove.has_of_landed hland hl
    · rw [hmove.expected_eq]
      have hguard := hmove.guarded_of_returned hret
      exact hmove.has_mono _ (hland (by rw [hguard]; rfl))
  · rcases hp' with ⟨_, rfl⟩ | ⟨_, rfl⟩ | ⟨_, _, rfl⟩ | ⟨_, _, _, rfl⟩ <;>
      simp [wrote, Phase.wrote, Phase.landed] at hd

/-- A store that only gains blobs holds what its writes have published, when those that are new or
have moved do. -/
theorem Sys.HoldsWrites.mono {x y : Sys} (h : x.HoldsWrites)
    (hmono : ∀ d, x.store.inner.has d = true → y.store.inner.has d = true)
    (hnew : ∀ p ∈ y.puts, p ∈ x.puts ∨
      ∀ d, p.wrote d = true → y.store.inner.has d = true) : y.HoldsWrites := by
  intro p hp d hd
  rcases hnew p hp with hold | hmoved
  · exact hmono d (h p hold d hd)
  · exact hmoved d hd

theorem Sys.HoldsWrites.step {x y : Sys} (h : x.HoldsWrites) (hx : Intact H x) {a : Act}
    (ha : a.benign = true) (hs : Sys.step H x a = some y) {capacity : Nat}
    (hm : x.store.mode = .writeOnly capacity) : y.HoldsWrites := by
  refine h.mono (fun d => hx.has_writeOnly ha hs hm) fun p hp => ?_
  cases a with
  | put =>
    cases hs
    rcases List.mem_append.mp hp with hp | hp
    · exact .inl hp
    · cases List.mem_singleton.mp hp
      exact .inr fun d hd => by cases hd
  | putKeyed d =>
    cases hs
    rcases List.mem_append.mp hp with hp | hp
    · exact .inl hp
    · cases List.mem_singleton.mp hp
      exact .inr fun d hd => by simp [Putter.wrote, Phase.wrote, Phase.landed] at hd
  | write i ev =>
    obtain ⟨q, s', q', hi, hq, rfl⟩ := Sys.step_write hs
    rcases List.mem_or_eq_of_mem_set hp with hold | rfl
    · exact .inl hold
    · exact .inr fun d hd => Putter.has_of_wrote hq (h q (List.mem_of_getElem? hi)) hd
  | evict => cases hs; exact .inl hp
  | evictStep i ev => obtain ⟨_, _, _, _, _, rfl⟩ := Sys.step_evict hs; exact .inl hp
  | scrub d => cases hs; exact .inl hp
  | scrubStep i ev => obtain ⟨_, _, _, _, _, rfl⟩ := Sys.step_scrub hs; exact .inl hp
  | quarantine d stat => cases hs; exact .inl hp
  | release d => cases hs; exact .inl hp
  | get d => rw [Sys.step_get hs] at hp; exact .inl hp
  | corrupt d bytes => cases ha

/-! ## Nodes -/

namespace SwarmNode

/-- The node is what `from_config` makes of its configuration. -/
structure Configured (n : SwarmNode) : Prop where
  mode : n.cfg.retentionPolicy = .ok n.sys.store.mode
  peers : ∃ list copies, n.cfg.effectivePeers = .ok list ∧ n.cfg.peerCopies = .ok copies ∧
    n.peers = peerSet list ∧ n.mirror = if list.isEmpty then none else copies

/-- A node on an intact disk, at any moment. -/
structure Inv (H : HashFn) (n : SwarmNode) : Prop where
  disk : n.cfg.backend = .disk
  configured : n.Configured
  intact : Intact H n.sys
  writes : n.writeOnly = true → n.sys.HoldsWrites

/-- What no change of a node undoes. -/
structure Grows (n n' : SwarmNode) : Prop where
  cfg : n'.cfg = n.cfg
  peers : n'.peers = n.peers
  mirror : n'.mirror = n.mirror
  writeOnly : n'.writeOnly = n.writeOnly
  has : n.writeOnly = true → ∀ d, n.has d = true → n'.has d = true

variable {n n' : SwarmNode}

theorem writeOnly_iff : n.writeOnly = true ↔ ∃ capacity, n.sys.store.mode = .writeOnly capacity := by
  unfold writeOnly CasStore.writeOnly
  split
  · next capacity h => simp [h]
  · next h => simp [h]

/-- The mode a node reports is the one it was configured with. -/
theorem Configured.writeOnly_iff (h : n.Configured) :
    n.writeOnly = true ↔ n.cfg.mode = .writeOnly := by
  have hmode := h.mode
  rw [SwarmNode.writeOnly_iff]
  unfold CasConfig.retentionPolicy at hmode
  split at hmode
  · next hlru =>
    rw [← Except.ok.inj hmode, hlru]
    simp
  · next hwo =>
    rw [← Except.ok.inj hmode, hwo]
    simp
  · cases hmode
  · cases hmode

/-- A `write_only` node mirrors to `R - 1` peers. -/
theorem Configured.mirror_eq (h : n.Configured) (hm : n.cfg.mode = .writeOnly) :
    1 ≤ n.cfg.copies ∧ n.mirror = if n.cfg.copies = 1 then none else some (n.cfg.copies - 1) := by
  obtain ⟨list, copies, hlist, hcopies, -, hmirror⟩ := h.peers
  obtain ⟨list', hlist', hle, hpos, rfl⟩ := CasConfig.peerCopies_writeOnly hm hcopies
  cases hlist'.symm.trans hlist
  refine ⟨hpos, ?_⟩
  rw [hmirror]
  split
  · next hempty =>
    rw [List.isEmpty_iff.mp hempty, List.countP_nil] at hle
    rw [if_pos (by omega)]
  · rfl

/-- The store moves. -/
theorem Inv.store (h : Inv H n) {a : Act} (ha : a.benign = true) {sys : Sys}
    (hs : Sys.step H n.sys a = some sys) :
    Inv H { n with sys } ∧ Grows n { n with sys } := by
  have hmode := Sys.step_mode hs
  have hreport : ({ n with sys } : SwarmNode).writeOnly = n.writeOnly := by
    simp only [writeOnly, CasStore.writeOnly, hmode]
  refine ⟨⟨h.disk, ⟨?_, h.configured.peers⟩, h.intact.step ha hs, fun hwo => ?_⟩,
    ⟨rfl, rfl, rfl, hreport, fun hwo d hd => ?_⟩⟩
  · exact h.configured.mode.trans (congrArg _ hmode.symm)
  · rw [hreport] at hwo
    obtain ⟨capacity, hm⟩ := SwarmNode.writeOnly_iff.mp hwo
    exact (h.writes hwo).step h.intact ha hs hm
  · obtain ⟨capacity, hm⟩ := SwarmNode.writeOnly_iff.mp hwo
    exact h.intact.has_writeOnly ha hs hm hd

/-- An `lru` node keeps what it fetched. -/
theorem Inv.fill (h : Inv H n) (hlru : n.writeOnly = false) {d : Digest} {body : Bytes}
    (hv : d.verify H body = true) :
    let n' := { n with sys := { n.sys with store := n.sys.store.land d body } }
    Inv H n' ∧ Grows n n' := by
  refine ⟨⟨h.disk, ⟨h.configured.mode, h.configured.peers⟩, ⟨h.intact.sound.land hv, h.intact.scrubs⟩,
    fun hwo => ?_⟩, ⟨rfl, rfl, rfl, rfl, fun hwo => ?_⟩⟩
  · exact absurd hwo (Bool.eq_false_iff.mp hlru)
  · exact absurd hwo (Bool.eq_false_iff.mp hlru)

/-- A write begins that has published nothing, and the calls are others. -/
theorem Inv.begin (h : Inv H n) {ps : List Putter} (hps : ∀ p ∈ ps, ∀ d, p.wrote d = false)
    (calls : List ClientCall) :
    let n' := { n with sys := { n.sys with puts := n.sys.puts ++ ps }, calls }
    Inv H n' ∧ Grows n n' := by
  refine ⟨⟨h.disk, ⟨h.configured.mode, h.configured.peers⟩, ⟨h.intact.sound, h.intact.scrubs⟩,
    fun hwo => ?_⟩, ⟨rfl, rfl, rfl, rfl, fun _ _ => id⟩⟩
  refine (h.writes hwo).mono (fun _ => id) fun p hp => ?_
  rcases List.mem_append.mp hp with hp | hp
  · exact .inl hp
  · exact .inr fun d hd => by rw [hps p hp d] at hd; cases hd

theorem Inv.receive (h : Inv H n) (d : Digest) (body : Bytes) :
    Inv H (n.receive d body) ∧ Grows n (n.receive d body) := by
  refine h.begin (fun p hp d' => ?_) n.calls
  cases List.mem_singleton.mp hp
  simp [Putter.wrote, Phase.wrote, Phase.landed]

theorem Inv.accept (h : Inv H n) (op : ClientOp) : Inv H (n.accept op) ∧ Grows n (n.accept op) := by
  cases op with
  | put =>
    refine h.begin (fun p hp d' => ?_) _
    cases List.mem_singleton.mp hp
    rfl
  | putKeyed d =>
    refine h.begin (fun p hp d' => ?_) _
    cases List.mem_singleton.mp hp
    simp [Putter.wrote, Phase.wrote, Phase.landed]
  | ensureReplicated d =>
    exact ⟨⟨h.disk, ⟨h.configured.mode, h.configured.peers⟩, h.intact, h.writes⟩,
      ⟨rfl, rfl, rfl, rfl, fun _ _ => id⟩⟩

theorem Inv.proceed (h : Inv H n) (k : Nat) (op : ClientOp) (phase : ClientPhase) (eff : Effect) :
    Inv H (n.proceed k op phase eff) ∧ Grows n (n.proceed k op phase eff) := by
  cases eff with
  | release d =>
    exact ⟨⟨h.disk, ⟨h.configured.mode, h.configured.peers⟩, ⟨h.intact.sound, h.intact.scrubs⟩,
      h.writes⟩, ⟨rfl, rfl, rfl, rfl, fun _ _ => id⟩⟩
  | _ =>
    exact ⟨⟨h.disk, ⟨h.configured.mode, h.configured.peers⟩, h.intact, h.writes⟩,
      ⟨rfl, rfl, rfl, rfl, fun _ _ => id⟩⟩

/-- A node that opens on an intact directory. -/
theorem Inv.opened {cfg : CasConfig} {disk : LocalCas} {now : Nat} {blobs : List LocalBlob}
    {aside : List QuarantinedBlob} (hopen : fromConfig cfg disk now blobs aside = .ok n)
    (hdisk : cfg.backend = .disk) (hsound : disk.Sound H) :
    Inv H n ∧ n.cfg = cfg ∧ n.sys.store.inner = disk := by
  obtain ⟨mode, copies, list, inner, hmode, hcopies, hlist, hinner, rfl⟩ := fromConfig_ok hopen
  cases hinner hdisk
  refine ⟨⟨hdisk, ⟨hmode, list, copies, hlist, hcopies, rfl, rfl⟩, .idle hsound, fun _ p hp => ?_⟩,
    rfl, rfl⟩
  cases hp

/-- A restart finds the blobs it left and reads the same configuration. -/
theorem Inv.restart (h : Inv H n) {now : Nat} {blobs : List LocalBlob}
    {aside : List QuarantinedBlob}
    (hopen : fromConfig n.cfg n.directory now blobs aside = .ok n') : Inv H n' ∧ Grows n n' := by
  obtain ⟨hinv, hcfg, hinner⟩ := Inv.opened hopen h.disk h.intact.sound
  obtain ⟨list, copies, hlist, hcopies, hpeers, hmirror⟩ := h.configured.peers
  obtain ⟨list', copies', hlist', hcopies', hpeers', hmirror'⟩ := hinv.configured.peers
  rw [hcfg, hlist] at hlist'
  rw [hcfg, hcopies] at hcopies'
  cases hlist'
  cases hcopies'
  have hmode : n'.sys.store.mode = n.sys.store.mode :=
    Except.ok.inj (hinv.configured.mode.symm.trans ((congrArg _ hcfg).trans h.configured.mode))
  refine ⟨hinv, hcfg, hpeers'.trans hpeers.symm, hmirror'.trans hmirror.symm, ?_, fun _ d hd => ?_⟩
  · simp only [writeOnly, CasStore.writeOnly, hmode]
  · rw [has, hinner]
    exact hd

end SwarmNode

end NessieStore
