import NessieStore.Lib.Run
import NessieStore.Volume.Zfs

/-!
# How long a ZFS volume keeps its uuid

The two tables of the registry are inverse to each other in every run (`Registry.Inverse`). That a
uuid which `create_volume` or `create_clone` returned keeps resolving is a matter of timing:
`delete_volume` destroys the dataset and forgets the uuid in two steps, and `register_vol` gives a
name that is still known its old uuid again. A create of the name in between returns the uuid that
the delete is about to forget.

`promised` watches a run and remembers each answer with the number of calls made until then, so that
a delete that started later is one whose index is no less. A promise ends when such a delete forgets
the uuid. `Undisturbed` is what a step needs for every promise to be kept: whoever registers a name
for its caller finds no unfinished delete of the uuid that the name has, or will have. What a step
can do to the registry is said once (`Moves`), and both invariants are read off it.
-/

set_option autoImplicit false

namespace NessieStore

open Lib

/-! ## The registry -/

namespace Registry

/-- The two tables of volumes are inverse maps. -/
def Inverse (r : Registry) : Prop :=
  ∀ u name, r.volByUuid.lookup u = some name ↔ r.volByName.lookup name = some u

/-- The tables of volumes are the same. -/
def SameVols (r r' : Registry) : Prop := r'.volByUuid = r.volByUuid ∧ r'.volByName = r.volByName

theorem Inverse.empty : Inverse .empty := by
  intro u name
  simp [Registry.empty]

theorem SameVols.inverse {r r' : Registry} (h : SameVols r r') (hr : r.Inverse) : r'.Inverse := by
  intro u name
  rw [h.1, h.2]
  exact hr u name

/-- A name that is known keeps its uuid, and then nothing changes. -/
theorem registerVol_known {r : Registry} {name : Text} {u : VolumeUuid}
    (h : r.volByName.lookup name = some u) (fresh : VolumeUuid) :
    r.registerVol fresh name = (u, r) := by
  unfold registerVol
  rw [h]

theorem registerVol_new {r : Registry} {name : Text} (h : r.volByName.lookup name = none)
    (fresh : VolumeUuid) :
    r.registerVol fresh name = (fresh, { r with
      volByUuid := r.volByUuid.insert fresh name
      volByName := r.volByName.insert name fresh }) := by
  unfold registerVol
  rw [h]

theorem registerVol_fst (r : Registry) (fresh : VolumeUuid) (name : Text) :
    (r.registerVol fresh name).1 = (r.volByName.lookup name).getD fresh := by
  unfold registerVol
  cases r.volByName.lookup name <;> rfl

section Register

variable {r : Registry} {fresh : VolumeUuid} (hr : r.Inverse) (hfresh : r.volByUuid.lookup fresh = none)
include hr hfresh

theorem Inverse.registerVol (name : Text) : (r.registerVol fresh name).2.Inverse := by
  cases hname : r.volByName.lookup name with
  | some u => rwa [registerVol_known hname]
  | none =>
    rw [registerVol_new hname]
    intro v other
    -- A fresh uuid had no name and a new name had no uuid, so neither meets an entry that was there.
    have hnone : r.volByName.lookup other ≠ some fresh := by
      intro h
      rw [← hr, hfresh] at h
      cases h
    have hnew : r.volByUuid.lookup v ≠ some name := by
      intro h
      rw [hr, hname] at h
      cases h
    simp only [Map.lookup_insert_eq]
    by_cases hv : v = fresh <;> by_cases ho : other = name
    · simp [hv, ho]
    · simp only [hv, ho, if_true, if_false, Option.some.injEq]
      exact ⟨fun h => absurd h.symm ho, fun h => absurd h hnone⟩
    · simp only [hv, ho, if_true, if_false, Option.some.injEq]
      exact ⟨fun h => absurd h hnew, fun h => absurd h.symm hv⟩
    · simp only [hv, ho, if_false]
      exact hr v other

omit hfresh in
/-- The uuid that a registration returns resolves to the name. -/
theorem Inverse.registerVol_resolves (name : Text) :
    (r.registerVol fresh name).2.volByUuid.lookup (r.registerVol fresh name).1 = some name := by
  cases hname : r.volByName.lookup name with
  | some u =>
    rw [registerVol_known hname]
    exact (hr u name).mpr hname
  | none =>
    rw [registerVol_new hname]
    exact Finmap.lookup_insert _

omit hr in
/-- What was registered stays. -/
theorem registerVol_keeps {u : VolumeUuid} {other : Text} (h : r.volByUuid.lookup u = some other)
    (name : Text) : (r.registerVol fresh name).2.volByUuid.lookup u = some other := by
  cases hname : r.volByName.lookup name with
  | some v => rwa [registerVol_known hname]
  | none =>
    have hu : u ≠ fresh := by
      rintro rfl
      rw [hfresh] at h
      cases h
    rw [registerVol_new hname, Map.lookup_insert_eq, if_neg hu, h]

end Register

theorem Inverse.removeVol {r : Registry} (hr : r.Inverse) (u : VolumeUuid) :
    (r.removeVol u).Inverse := by
  unfold Registry.removeVol
  cases hu : r.volByUuid.lookup u with
  | none => exact hr
  | some name =>
    intro v other
    simp only [Map.lookup_erase_eq]
    by_cases hv : v = u <;> by_cases ho : other = name
    · simp [hv, ho]
    · simp only [hv, ho, if_true, if_false]
      refine ⟨fun h => absurd h (by simp), fun h => ?_⟩
      rw [← hr, hu] at h
      exact absurd (Option.some.inj h).symm ho
    · simp only [hv, ho, if_true, if_false]
      refine ⟨fun h => ?_, fun h => absurd h (by simp)⟩
      rw [hr, (hr u name).mp hu] at h
      exact absurd (Option.some.inj h).symm hv
    · simp only [hv, ho, if_false]
      exact hr v other

/-- A removal forgets one uuid. -/
theorem lookup_removeVol (r : Registry) (u v : VolumeUuid) :
    (r.removeVol u).volByUuid.lookup v = if v = u then none else r.volByUuid.lookup v := by
  unfold removeVol
  cases hu : r.volByUuid.lookup u with
  | none =>
    dsimp only
    by_cases hv : v = u
    · rw [if_pos hv, hv, hu]
    · rw [if_neg hv]
  | some name => exact Map.lookup_erase_eq _ u v

end Registry

/-! ## What the operations share -/

namespace ZfsShared

/-- The tables are inverse and the supply is ahead of every uuid in them. -/
structure Sound (s : ZfsShared) : Prop where
  inverse : s.reg.Inverse
  issued : ∀ u name, s.reg.volByUuid.lookup u = some name → u.id < s.supply

variable {s : ZfsShared}

theorem Sound.new (pool : ZfsPool) : Sound ⟨pool, .empty, 0⟩ where
  inverse := .empty
  issued u name h := by simp [Registry.empty] at h

/-- The next uuid of the supply is new. -/
theorem Sound.fresh (h : s.Sound) : s.reg.volByUuid.lookup ⟨s.supply⟩ = none := by
  cases hu : s.reg.volByUuid.lookup ⟨s.supply⟩ with
  | none => rfl
  | some name => exact absurd (h.issued _ name hu) (Nat.lt_irrefl _)

theorem Sound.of_same {s' : ZfsShared} (h : s.Sound) (hsame : s.reg.SameVols s'.reg)
    (hle : s.supply ≤ s'.supply) : s'.Sound where
  inverse := hsame.inverse h.inverse
  issued u name hu := by
    rw [hsame.1] at hu
    exact Nat.lt_of_lt_of_le (h.issued u name hu) hle

theorem Sound.register (h : s.Sound) (name : Text) : (s.register name).2.Sound where
  inverse := h.inverse.registerVol h.fresh name
  issued u other hu := by
    unfold ZfsShared.register at hu ⊢
    dsimp only at hu ⊢
    cases hname : s.reg.volByName.lookup name with
    | some v =>
      rw [Registry.registerVol_known hname] at hu
      exact Nat.lt_succ_of_lt (h.issued u other hu)
    | none =>
      rw [Registry.registerVol_new hname, Map.lookup_insert_eq] at hu
      split at hu
      · next hnew =>
        rw [hnew]
        exact Nat.lt_succ_self _
      · exact Nat.lt_succ_of_lt (h.issued u other hu)

theorem Sound.removeVol (h : s.Sound) (u : VolumeUuid) :
    Sound { s with reg := s.reg.removeVol u } where
  inverse := h.inverse.removeVol u
  issued v name hv := by
    rw [Registry.lookup_removeVol] at hv
    split at hv
    · cases hv
    · exact h.issued v name hv

theorem Sound.register_keeps (h : s.Sound) {u : VolumeUuid} {other : Text}
    (hu : s.reg.volByUuid.lookup u = some other) (name : Text) :
    (s.register name).2.reg.volByUuid.lookup u = some other :=
  Registry.registerVol_keeps h.fresh hu name

/-- The rows of a listing register one after the other; what was registered stays. -/
theorem Sound.registerRows (rows : List (Text × Option CloneOrigin)) (h : s.Sound) :
    (s.registerRows rows).2.Sound ∧ ∀ u name, s.reg.volByUuid.lookup u = some name →
      (s.registerRows rows).2.reg.volByUuid.lookup u = some name := by
  induction rows generalizing s with
  | nil => exact ⟨h, fun _ _ hu => hu⟩
  | cons row rows ih =>
    obtain ⟨name, origin⟩ := row
    obtain ⟨hsound, hkeep⟩ := ih (h.register name)
    exact ⟨hsound, fun u other hu => hkeep u other (h.register_keeps hu name)⟩

end ZfsShared

/-! ## What a step does -/

namespace ZfsThread

/-- The volume that the operation is deleting. -/
def deletes : ZfsThread → Option VolumeUuid
  | .deleteVolume u | .destroying u _ _ | .destroyed u => some u
  | _ => none

/-- The uuid that the operation's next section forgets. -/
def forgets : ZfsThread → Option VolumeUuid
  | .destroyed u => some u
  | _ => none

/-- The name that the operation's next section registers for its caller. -/
def registers : ZfsThread → Option Text
  | .volumeCreated spec => some spec.name
  | .cloneMade name _ _ => some name
  | _ => none

/-- The volume that the operation returned. -/
def made : ZfsThread → Option Volume
  | .returned (.ok (.volume v)) => some v
  | _ => none

/-- What a step of an operation does to the tables of volumes. -/
inductive Moves (s : ZfsShared) (t : ZfsThread) : ZfsShared × ZfsThread → Prop
  | quiet {r : ZfsShared × ZfsThread} :
      s.reg.SameVols r.1.reg → s.supply ≤ r.1.supply → (∀ u, r.2.deletes = some u → t.deletes = some u) →
      r.2.made = none → t.forgets = none → Moves s t r
  | register {name : Text} (size : Option UInt64) (clone : Option CloneOrigin) :
      t.registers = some name →
      Moves s t ((s.register name).2,
        .returned (.ok (.volume (newVolume (s.register name).1 name size clone))))
  | list (rows : List (Text × Option CloneOrigin)) (vols : List Volume) :
      t.forgets = none → Moves s t ((s.registerRows rows).2, .returned (.ok (.volumes vols)))
  | forget {u : VolumeUuid} : t = .destroyed u →
      Moves s t ({ s with reg := s.reg.removeVol u }, .returned (.ok .done))

section Moves

variable {cfg : ZfsConfig} {s : ZfsShared} {t : ZfsThread}

/-- An operation that ends with an error, or with nothing, changed nothing in its last step. -/
theorem moves_failed (hforget : t.forgets = none) (e : ZfsError) :
    Moves s t (s, .returned (.error e)) :=
  .quiet ⟨rfl, rfl⟩ le_rfl (by simp [deletes]) rfl hforget

theorem exec_moves {fault : Option CommandFault} {command : ZfsCommand} {next : ZfsThread}
    (hdel : next.deletes = none) (hmade : next.made = none) (hforget : t.forgets = none) :
    Moves s t (exec cfg s fault command next) := by
  unfold exec
  split
  · exact .quiet ⟨rfl, rfl⟩ le_rfl (by simp [hdel]) hmade hforget
  · exact moves_failed hforget _
  · exact moves_failed hforget _

theorem withName_moves {u : VolumeUuid} {next : Text → ZfsThread}
    (hdel : ∀ name v, (next name).deletes = some v → t.deletes = some v)
    (hmade : ∀ name, (next name).made = none) (hforget : t.forgets = none) :
    Moves s t (withName s u next) := by
  unfold withName
  split
  · exact .quiet ⟨rfl, rfl⟩ le_rfl (hdel _) (hmade _) hforget
  · exact moves_failed hforget _

theorem withSnap_moves {vol : VolumeUuid} {snap : SnapshotUuid} {next : Text → ZfsThread}
    (hdel : ∀ name, (next name).deletes = none) (hmade : ∀ name, (next name).made = none)
    (hforget : t.forgets = none) : Moves s t (withSnap s vol snap next) := by
  unfold withSnap
  split
  · split
    · exact .quiet ⟨rfl, rfl⟩ le_rfl (by simp [hdel]) (hmade _) hforget
    · exact moves_failed hforget _
  · exact moves_failed hforget _

theorem destroy_moves {fault : Option CommandFault} {u : VolumeUuid} {name : Text} {attempt : Nat} :
    Moves s (.destroying u name attempt) (destroy cfg s fault u name attempt) := by
  unfold destroy
  split
  · exact .quiet ⟨rfl, rfl⟩ le_rfl (fun _ h => h) rfl rfl
  · split
    · exact .quiet ⟨rfl, rfl⟩ le_rfl (fun _ h => h) rfl rfl
    · exact moves_failed rfl _
  · exact moves_failed rfl _

theorem registerSnap_same (r : Registry) (fresh : SnapshotUuid) (vol : VolumeUuid) (name : Text) :
    r.SameVols (r.registerSnap fresh vol name).2 := by
  unfold Registry.registerSnap
  split <;> exact ⟨rfl, rfl⟩

/-- Every step is one of these. The cases stand in the order of `step`: creating a volume and a clone,
deleting a volume, creating and deleting a snapshot, listing. -/
theorem step_moves {ev : ZfsEvent} {r : ZfsShared × ZfsThread} (h : step cfg s t ev = some r) :
    Moves s t r := by
  unfold step at h
  split at h <;> try obtain rfl := Option.some.inj h
  · exact exec_moves rfl rfl rfl
  · exact .register _ none rfl
  · exact withName_moves (by simp [deletes]) (fun _ => rfl) rfl
  · exact withSnap_moves (fun _ => rfl) (fun _ => rfl) rfl
  · exact exec_moves rfl rfl rfl
  · exact .register none _ rfl
  · exact withName_moves (fun _ _ hv => hv) (fun _ => rfl) rfl
  · exact destroy_moves
  · exact .forget rfl
  · exact withName_moves (by simp [deletes]) (fun _ => rfl) rfl
  · exact exec_moves rfl rfl rfl
  · exact .quiet (registerSnap_same ..) (Nat.le_succ _) (by simp [deletes]) rfl rfl
  · exact withSnap_moves (fun _ => rfl) (fun _ => rfl) rfl
  · exact withName_moves (by simp [deletes]) (fun _ => rfl) rfl
  · exact exec_moves rfl rfl rfl
  · exact .quiet ⟨rfl, rfl⟩ le_rfl (by simp [deletes]) rfl rfl
  · exact exec_moves rfl rfl rfl
  · split at h
    · obtain rfl := Option.some.inj h
      exact .quiet ⟨rfl, rfl⟩ le_rfl (by simp [deletes]) rfl rfl
    · cases h
  · exact .list _ _ rfl
  · cases h

/-- The tables stay inverse and the supply ahead, whatever the step. -/
theorem Moves.sound {r : ZfsShared × ZfsThread} (h : Moves s t r) (hs : s.Sound) : r.1.Sound := by
  cases h with
  | quiet hsame hle => exact hs.of_same hsame hle
  | register size clone => exact hs.register _
  | list rows => exact (hs.registerRows rows).1
  | forget => exact hs.removeVol _

end Moves

end ZfsThread

/-! ## Promises -/

/-- A uuid was returned for a name when so many calls had been made. -/
structure VolumePromise where
  uuid : VolumeUuid
  name : Text
  since : Nat
deriving DecidableEq

namespace Zfs

variable (cfg : ZfsConfig)

/-- The promises after thread `i` went from `t` to `t'`. -/
def promisedBy (calls i : Nat) (t t' : ZfsThread) (ps : List VolumePromise) : List VolumePromise :=
  match t'.made with
  | some v => ⟨v.uuid, v.name, calls⟩ :: ps
  | none =>
    match t.forgets with
    | some u => ps.filter fun p => ¬(p.uuid = u ∧ p.since ≤ i)
    | none => ps

/-- What the callers of `create_volume` and `create_clone` may rely on after a step. -/
def promised (x : Zfs) : ZfsAct → List VolumePromise → List VolumePromise
  | .call _, ps => ps
  | .step i ev, ps =>
    match x.threads[i]? with
    | none => ps
    | some t =>
      match t.step cfg x.shared ev with
      | none => ps
      | some (_, t') => promisedBy x.threads.length i t t' ps

/-- Whoever registers a name for its caller finds no unfinished delete of the uuid that it gets. -/
def Undisturbed (x : Zfs) : ZfsAct → Prop
  | .call _ => True
  | .step i _ =>
    match x.threads[i]?.bind ZfsThread.registers with
    | none => True
    | some name =>
      ∀ t ∈ x.threads,
        t.deletes ≠ some ((x.shared.reg.volByName.lookup name).getD ⟨x.shared.supply⟩)

instance (x : Zfs) (a : ZfsAct) : Decidable (Undisturbed x a) := by
  unfold Undisturbed
  split
  · exact instDecidableTrue
  · split
    · exact instDecidableTrue
    · exact List.decidableBAll _ _

/-- A promise is kept, and only deletes that started after it are on the way to end it. -/
structure Kept (x : Zfs) (p : VolumePromise) : Prop where
  resolves : x.shared.reg.volByUuid.lookup p.uuid = some p.name
  later : ∀ i t, x.threads[i]? = some t → t.deletes = some p.uuid → p.since ≤ i
  past : p.since ≤ x.threads.length

variable {cfg} {x : Zfs} {s' : ZfsShared} {t t' : ZfsThread} {i : Nat} {p : VolumePromise}

theorem Kept.call (h : Kept x p) (r : ZfsRequest) :
    Kept { x with threads := x.threads ++ [r.thread] } p where
  resolves := h.resolves
  later j t hj hdel := by
    rw [List.getElem?_append] at hj
    split at hj
    · exact h.later j t hj hdel
    · have := h.past
      omega
  past := by
    have := h.past
    rw [List.length_append]
    omega

/-- A promise outlives a step that keeps its uuid and starts no delete. -/
theorem Kept.step (h : Kept x p) (hi : x.threads[i]? = some t)
    (hres : s'.reg.volByUuid.lookup p.uuid = some p.name)
    (hdel : ∀ u, t'.deletes = some u → t.deletes = some u) : Kept ⟨s', x.threads.set i t'⟩ p where
  resolves := hres
  later j u hj hu := by
    rcases getElem?_set_cases hj with ⟨rfl, rfl⟩ | ⟨-, hold⟩
    · exact h.later _ t hi (hdel _ hu)
    · exact h.later j u hold hu
  past := by simpa using h.past

/-- The promise of an answer holds from the start. -/
theorem Kept.made {name : Text} {size : Option UInt64} {clone : Option CloneOrigin}
    (hs : x.shared.Sound)
    (hk : ∀ u ∈ x.threads,
      u.deletes ≠ some ((x.shared.reg.volByName.lookup name).getD ⟨x.shared.supply⟩)) :
    Kept ⟨(x.shared.register name).2, x.threads.set i
        (.returned (.ok (.volume (newVolume (x.shared.register name).1 name size clone))))⟩
      ⟨(x.shared.register name).1, name, x.threads.length⟩ where
  resolves := hs.inverse.registerVol_resolves name
  later j u hj hu := by
    rcases getElem?_set_cases hj with ⟨-, rfl⟩ | ⟨-, hold⟩
    · cases hu
    · refine absurd ?_ (hk u (List.mem_of_getElem? hold))
      rw [hu]
      exact congrArg some (Registry.registerVol_fst _ _ _)
  past := by simp

/-- One step of one operation keeps every promise that it does not end. -/
theorem kept_moves {ps : List VolumePromise} (hs : x.shared.Sound)
    (hi : x.threads[i]? = some t)
    (hk : ∀ name, t.registers = some name → ∀ u ∈ x.threads,
      u.deletes ≠ some ((x.shared.reg.volByName.lookup name).getD ⟨x.shared.supply⟩))
    (hps : ∀ p ∈ ps, Kept x p) {r : ZfsShared × ZfsThread} (h : t.Moves x.shared r) :
    ∀ p ∈ promisedBy x.threads.length i t r.2 ps, Kept ⟨r.1, x.threads.set i r.2⟩ p := by
  cases h with
  | quiet hsame _ hdel hmade hforget =>
    intro p hp
    rw [promisedBy, hmade, hforget] at hp
    have hold := hps p hp
    refine hold.step hi ?_ hdel
    rw [hsame.1]
    exact hold.resolves
  | register size clone hreg =>
    intro p hp
    rcases List.mem_cons.mp hp with rfl | hp
    · exact .made hs (hk _ hreg)
    · exact (hps p hp).step hi (hs.register_keeps (hps p hp).resolves _) (by simp [ZfsThread.deletes])
  | list rows vols hforget =>
    intro p hp
    rw [promisedBy, ZfsThread.made, hforget] at hp
    · exact (hps p hp).step hi ((hs.registerRows rows).2 _ _ (hps p hp).resolves)
        (by simp [ZfsThread.deletes])
    · simp
  | @forget u hd =>
    subst hd
    intro p hp
    obtain ⟨hp, hopen⟩ := List.mem_filter.mp hp
    have hold := hps p hp
    -- The delete started after any promise of its uuid, so a promise that is left is of another one.
    have hne : p.uuid ≠ u := by
      intro heq
      have hlater := hold.later i _ hi (by rw [heq]; rfl)
      simp [heq, hlater] at hopen
    refine hold.step hi ?_ (by simp [ZfsThread.deletes])
    rw [Registry.lookup_removeVol, if_neg hne]
    exact hold.resolves

/-! ## Runs -/

theorem sound_step {y : Zfs} {a : ZfsAct} (h : step cfg x a = some y) (hs : x.shared.Sound) :
    y.shared.Sound := by
  cases a with
  | call r =>
    cases h
    exact hs
  | step i ev =>
    obtain ⟨r, hat, rfl⟩ := Option.map_eq_some_iff.mp h
    obtain ⟨t, s', t', -, hstep, rfl⟩ := stepAt_eq_some.mp hat
    exact (ZfsThread.step_moves hstep).sound hs

/-- What the callers rely on, beside what the registry needs. -/
structure Relied (y : Zfs × List VolumePromise) : Prop where
  sound : y.1.shared.Sound
  kept : ∀ p ∈ y.2, Kept y.1 p

theorem Relied.new (pool : ZfsPool) : Relied (new pool, []) where
  sound := .new pool
  kept := by simp

theorem Relied.step {y z : Zfs × List VolumePromise} {a : ZfsAct} (hk : Undisturbed y.1 a)
    (h : Relied y) (hstep : watch (step cfg) (promised cfg) y a = some z) : Relied z := by
  obtain ⟨x, ps⟩ := y
  obtain ⟨x', ps'⟩ := z
  obtain ⟨hx, hps⟩ := watch_eq_some.mp hstep
  dsimp only at hx hps hk
  refine ⟨sound_step hx h.sound, ?_⟩
  cases a with
  | call r =>
    cases hx
    subst hps
    exact fun p hp => (h.kept p hp).call r
  | step i ev =>
    obtain ⟨r, hat, rfl⟩ := Option.map_eq_some_iff.mp hx
    obtain ⟨t, s', t', hi, hmove, rfl⟩ := stepAt_eq_some.mp hat
    simp only [promised, hi, hmove] at hps
    subst hps
    refine kept_moves h.sound hi (fun name hname => ?_) h.kept (ZfsThread.step_moves hmove)
    simpa only [Undisturbed, hi, Option.bind_some, hname] using hk

/-- In every run the tables are inverse maps. In a run in which nobody registers a name for its
caller while a delete of the name's uuid is unfinished, a uuid that was returned for a name resolves
to it until a delete that started after the return forgets it. -/
theorem identities_stable (cfg : ZfsConfig) (pool : ZfsPool) :
    (∀ as x, Run (step cfg) (fun _ _ => True) (new pool) as x → x.shared.reg.Inverse) ∧
    ∀ as x ps, Run (watch (step cfg) (promised cfg)) (fun y a => Undisturbed y.1 a) (new pool, [])
      as (x, ps) → ∀ p ∈ ps, x.shared.reg.volByUuid.lookup p.uuid = some p.name := by
  constructor
  · intro as x hrun
    have hsound : x.shared.Sound :=
      hrun.keeps (I := fun x => x.shared.Sound) (fun _ hs h => sound_step h hs) (.new pool)
    exact hsound.inverse
  · intro as x ps hrun p hp
    have hrelied : Relied (x, ps) := hrun.keeps (I := Relied) (fun hk h => h.step hk) (.new pool)
    exact (hrelied.kept p hp).resolves

/-- A pool with nothing in it, and what two callers do there. -/
def sampleZfs : ZfsConfig := ⟨"tank".toList, "/srv".toList, 5⟩

def createDelete : List ZfsAct :=
  [.call (.createVolume ⟨"a".toList, none⟩), .step 0 (.command none), .step 0 .lock,
    .call (.deleteVolume ⟨0⟩), .step 1 .lock, .step 1 (.command none)]

/-- Create, delete and create again: one after the other, the second volume keeps its uuid. -/
theorem identities_stable_recreated :
    ∃ as x, Run (watch (step sampleZfs) (promised sampleZfs)) (fun y a => Undisturbed y.1 a)
        (new ⟨∅, ∅⟩, []) as (x, [⟨⟨1⟩, "a".toList, 3⟩]) ∧
      x.shared.reg.volByUuid.lookup ⟨1⟩ = some "a".toList := by
  obtain ⟨⟨x, ps⟩, hrun, hps⟩ : ∃ y, run (watch (step sampleZfs) (promised sampleZfs))
      (fun y a => Undisturbed y.1 a) (new ⟨∅, ∅⟩, [])
      (createDelete ++ [.step 1 .lock, .call (.createVolume ⟨"a".toList, none⟩),
        .step 2 (.command none), .step 2 .lock]) = some y ∧ y.2 = [⟨⟨1⟩, "a".toList, 3⟩] :=
    run_exists (by decide +kernel)
  obtain rfl : ps = _ := hps
  exact ⟨_, x, run_sound hrun,
    (identities_stable sampleZfs ⟨∅, ∅⟩).2 _ x _ (run_sound hrun) ⟨⟨1⟩, "a".toList, 3⟩ (by simp)⟩

/-- A create between the destruction of the dataset and the end of the delete is given the old uuid,
and the delete, which started before, then forgets it. -/
theorem identity_forgotten :
    ∃ as x, Run (watch (step sampleZfs) (promised sampleZfs)) (fun _ _ => True) (new ⟨∅, ∅⟩, []) as
        (x, [⟨⟨0⟩, "a".toList, 3⟩]) ∧
      x.threads[2]?.bind ZfsThread.made = some (newVolume ⟨0⟩ "a".toList none none) ∧
      "a".toList ∈ x.shared.pool.datasets ∧ x.shared.reg.volByUuid.lookup ⟨0⟩ = none := by
  obtain ⟨⟨x, ps⟩, hrun, hps, hmade, hpool, hnone⟩ : ∃ y,
      run (watch (step sampleZfs) (promised sampleZfs)) (fun _ _ => True) (new ⟨∅, ∅⟩, [])
        (createDelete ++ [.call (.createVolume ⟨"a".toList, none⟩), .step 2 (.command none),
          .step 2 .lock, .step 1 .lock]) = some y ∧
      y.2 = [⟨⟨0⟩, "a".toList, 3⟩] ∧
      y.1.threads[2]?.bind ZfsThread.made = some (newVolume ⟨0⟩ "a".toList none none) ∧
      "a".toList ∈ y.1.shared.pool.datasets ∧ y.1.shared.reg.volByUuid.lookup ⟨0⟩ = none :=
    run_exists (by decide +kernel)
  obtain rfl : ps = _ := hps
  exact ⟨_, x, run_sound hrun, hmade, hpool, hnone⟩

end Zfs

end NessieStore
