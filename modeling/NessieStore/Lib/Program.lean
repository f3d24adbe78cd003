import Mathlib.Logic.Basic

/-!
# Programs that fail and keep what they did

A program of type `EStateM ε σ α` returns or fails, and either way leaves a state behind: an effect
that came before the failure stays. `Triple P x Q R` says that from every state with `P` the program
`x` returns a value and a state with `Q`, or fails in a state with `R`. The rules follow the way
programs are put together: `bind` passes the middle assertion on, `attempt` turns a failure into a
value, `conseq` strengthens and weakens. Computations in `Except` alone are taken apart with
`ok_of_bind`.
-/

set_option autoImplicit false

namespace NessieStore.Lib

variable {ε σ α β : Type}

/-- The pre- and postconditions of a program; `R` is the one of a failure. -/
def Triple (P : σ → Prop) (x : EStateM ε σ α) (Q : α → σ → Prop) (R : σ → Prop) : Prop :=
  ∀ s, P s → match x s with
    | .ok a s' => Q a s'
    | .error _ s' => R s'

/-- The outcome of a program as a value. -/
def attempt (x : EStateM ε σ α) : EStateM ε σ (Except ε α) := fun s =>
  match x s with
  | .ok a s' => .ok (.ok a) s'
  | .error e s' => .ok (.error e) s'

/-- The postcondition that goes with an outcome. -/
def Outcome (Q : α → σ → Prop) (R : σ → Prop) : Except ε α → σ → Prop
  | .ok a => Q a
  | .error _ => R

/-- A computation that returns has returned at each of its steps. -/
theorem ok_of_bind {x : Except ε α} {f : α → Except ε β} {b : β}
    (h : (x >>= f) = .ok b) : ∃ a, x = .ok a ∧ f a = .ok b := by
  cases x with
  | error e => cases h
  | ok a => exact ⟨a, rfl, h⟩

theorem toOption_eq_some_iff {x : Except ε α} {a : α} : x.toOption = some a ↔ x = .ok a := by
  cases x <;> simp [Except.toOption]

theorem bind_of_ok {x : EStateM ε σ α} {f : α → EStateM ε σ β} {s s' : σ} {a : α}
    (h : x s = .ok a s') : (x >>= f) s = f a s' := by
  show EStateM.bind x f s = f a s'
  rw [EStateM.bind, h]

theorem bind_of_error {x : EStateM ε σ α} {f : α → EStateM ε σ β} {s s' : σ} {e : ε}
    (h : x s = .error e s') : (x >>= f) s = .error e s' := by
  show EStateM.bind x f s = .error e s'
  rw [EStateM.bind, h]

/-- The program fails and leaves `s'` behind. -/
def Fails (x : EStateM ε σ α) (s s' : σ) : Prop := ∃ e, x s = .error e s'

theorem not_fails_of_ok {x : EStateM ε σ α} {s s' t : σ} {a : α} (h : x s = .ok a t) :
    ¬ Fails x s s' := by
  rintro ⟨e, he⟩
  rw [h] at he
  cases he

/-- A program fails in one state at most. -/
theorem Fails.unique {x : EStateM ε σ α} {s t t' : σ} (h : Fails x s t) (h' : Fails x s t') :
    t' = t := by
  obtain ⟨e, he⟩ := h
  obtain ⟨e', he'⟩ := h'
  rw [he] at he'
  cases he'
  rfl

/-- A program that returns if `p` holds and fails in `t` if not. -/
theorem fails_iff_of {p : Prop} {x : EStateM ε σ α} {s s' t : σ} (hok : p → ∃ a t, x s = .ok a t)
    (hno : ¬ p → Fails x s t) : Fails x s s' ↔ s' = t ∧ ¬ p := by
  by_cases hp : p
  · obtain ⟨a, t, hx⟩ := hok hp
    exact iff_of_false (not_fails_of_ok hx) fun h => h.2 hp
  · constructor
    · intro h
      exact ⟨(hno hp).unique h, hp⟩
    · rintro ⟨rfl, -⟩
      exact hno hp

/-- A sequence fails in its first part or behind it. -/
theorem fails_bind_iff {x : EStateM ε σ α} {f : α → EStateM ε σ β} {s s' : σ} :
    Fails (x >>= f) s s' ↔ Fails x s s' ∨ ∃ a t, x s = .ok a t ∧ Fails (f a) t s' := by
  cases hx : x s with
  | ok a t =>
    have hnot : ¬ Fails x s s' := not_fails_of_ok hx
    unfold Fails at hnot ⊢
    rw [bind_of_ok hx]
    constructor
    · intro h
      exact .inr ⟨a, t, rfl, h⟩
    · rintro (h | ⟨_, _, heq, h⟩)
      · exact absurd h hnot
      · cases heq
        exact h
  | error e t =>
    unfold Fails
    rw [bind_of_error hx, hx]
    constructor
    · rintro ⟨_, heq⟩
      cases heq
      exact .inl ⟨e, rfl⟩
    · rintro (⟨_, heq⟩ | ⟨_, _, heq, -⟩)
      · cases heq
        exact ⟨e, rfl⟩
      · cases heq

theorem fails_bind_of_ok {x : EStateM ε σ α} {f : α → EStateM ε σ β} {s s' t : σ} {a : α}
    (h : x s = .ok a t) : Fails (x >>= f) s s' ↔ Fails (f a) t s' := by
  unfold Fails
  rw [bind_of_ok h]

theorem fails_bind_of_fails {x : EStateM ε σ α} {f : α → EStateM ε σ β} {s s' t : σ}
    (h : Fails x s t) : Fails (x >>= f) s s' ↔ s' = t := by
  constructor
  · intro h'
    exact (fails_bind_iff.mpr (.inl h)).unique h'
  · rintro rfl
    exact fails_bind_iff.mpr (.inl h)

theorem fails_discard_iff {x : EStateM ε σ α} {s s' : σ} :
    Fails (discard x) s s' ↔ Fails x s s' := by
  have hrun : ∀ e, discard x s = .error e s' ↔ x s = .error e s' := by
    intro e
    show EStateM.map _ x s = _ ↔ _
    unfold EStateM.map
    cases x s <;> simp
  exact exists_congr hrun

/-- The state that the program leaves behind, however it ends. -/
def final (x : EStateM ε σ α) (s : σ) : σ :=
  match x s with
  | .ok _ s' | .error _ s' => s'

theorem final_of_ok {x : EStateM ε σ α} {s s' : σ} {a : α} (h : x s = .ok a s') : final x s = s' := by
  unfold final
  rw [h]

theorem Fails.final {x : EStateM ε σ α} {s s' : σ} (h : Fails x s s') : Lib.final x s = s' := by
  obtain ⟨e, he⟩ := h
  unfold Lib.final
  rw [he]

theorem final_discard (x : EStateM ε σ α) (s : σ) : final (discard x) s = final x s := by
  show Lib.final (EStateM.map _ x) s = _
  unfold final EStateM.map
  cases x s <;> rfl

/-- Run the program and look at the state it fails in. -/
def failsWith (x : EStateM ε σ α) (s : σ) (P : σ → Prop) [DecidablePred P] : Bool :=
  match x s with
  | .error _ s' => decide (P s')
  | .ok _ _ => false

theorem fails_exists {x : EStateM ε σ α} {s : σ} {P : σ → Prop} [DecidablePred P]
    (h : failsWith x s P = true) : ∃ s', Fails x s s' ∧ P s' := by
  unfold failsWith at h
  split at h
  · next e s' hx => exact ⟨s', ⟨e, hx⟩, of_decide_eq_true h⟩
  · cases h

/-- The program returns, with an answer and in a state that meet the condition. -/
def returnsWith (x : EStateM ε σ α) (s : σ) (P : α → σ → Prop) [∀ a t, Decidable (P a t)] : Bool :=
  match x s with
  | .ok a t => decide (P a t)
  | .error _ _ => false

theorem returns_exists {x : EStateM ε σ α} {s : σ} {P : α → σ → Prop} [∀ a t, Decidable (P a t)]
    (h : returnsWith x s P = true) : ∃ a t, x s = .ok a t ∧ P a t := by
  unfold returnsWith at h
  split at h
  · next a t hx => exact ⟨a, t, hx, of_decide_eq_true h⟩
  · cases h

namespace Triple

variable {P P' : σ → Prop} {x : EStateM ε σ α} {Q Q' : α → σ → Prop} {R R' : σ → Prop}

theorem ok (h : Triple P x Q R) {s s' : σ} {a : α} (hs : P s) (hx : x s = .ok a s') : Q a s' := by
  have hrun := h s hs
  rwa [hx] at hrun

theorem error (h : Triple P x Q R) {s s' : σ} {e : ε} (hs : P s) (hx : x s = .error e s') : R s' := by
  have hrun := h s hs
  rwa [hx] at hrun

theorem conseq (h : Triple P x Q R) (hP : ∀ s, P' s → P s) (hQ : ∀ a s, Q a s → Q' a s)
    (hR : ∀ s, R s → R' s) : Triple P' x Q' R' := by
  intro s hs
  have hrun := h s (hP s hs)
  cases hx : x s with
  | ok a s' =>
    rw [hx] at hrun
    exact hQ a s' hrun
  | error e s' =>
    rw [hx] at hrun
    exact hR s' hrun

/-- Strengthen the precondition. -/
theorem pre (h : Triple P x Q R) (hP : ∀ s, P' s → P s) : Triple P' x Q R :=
  h.conseq hP (fun _ _ => id) fun _ => id

/-- Weaken the postcondition. -/
theorem post (h : Triple P x Q R) (hQ : ∀ a s, Q a s → Q' a s) : Triple P x Q' R :=
  h.conseq (fun _ => id) hQ fun _ => id

/-- Weaken the postcondition of a failure. -/
theorem fail (h : Triple P x Q R) (hR : ∀ s, R s → R' s) : Triple P x Q R' :=
  h.conseq (fun _ => id) (fun _ _ => id) hR

theorem pure {a : α} (h : ∀ s, P s → Q a s) : Triple P (Pure.pure a : EStateM ε σ α) Q R :=
  fun s hs => h s hs

theorem throw {e : ε} (h : ∀ s, P s → R s) : Triple P (MonadExcept.throw e : EStateM ε σ α) Q R :=
  fun s hs => h s hs

theorem bind {f : α → EStateM ε σ β} {Q' : β → σ → Prop} (h : Triple P x Q R)
    (hf : ∀ a, Triple (Q a) (f a) Q' R) : Triple P (x >>= f) Q' R := by
  intro s hs
  have hrun := h s hs
  show match EStateM.bind x f s with
    | .ok a s' => Q' a s'
    | .error _ s' => R s'
  unfold EStateM.bind
  cases hx : x s with
  | ok a s' =>
    rw [hx] at hrun
    exact hf a s' hrun
  | error e s' =>
    rw [hx] at hrun
    exact hrun

theorem map {f : α → β} {Q' : β → σ → Prop} (h : Triple P x (fun a => Q' (f a)) R) :
    Triple P (f <$> x) Q' R := by
  intro s hs
  have hrun := h s hs
  show match EStateM.map f x s with
    | .ok a s' => Q' a s'
    | .error _ s' => R s'
  unfold EStateM.map
  cases hx : x s with
  | ok a s' =>
    rw [hx] at hrun
    exact hrun
  | error e s' =>
    rw [hx] at hrun
    exact hrun

theorem modify {f : σ → σ} {Q : Unit → σ → Prop} (h : ∀ s, P s → Q () (f s)) :
    Triple P (modify f : EStateM ε σ Unit) Q R :=
  fun s hs => h s hs

theorem get {Q : σ → σ → Prop} (h : ∀ s, P s → Q s s) : Triple P (get : EStateM ε σ σ) Q R :=
  fun s hs => h s hs

/-- After `attempt` nothing fails; a value stands for what was returned, an error for a failure. -/
theorem attempt (h : Triple P x Q R) :
    Triple P (Lib.attempt x) (Outcome Q R) R' := by
  intro s hs
  have hrun := h s hs
  unfold Lib.attempt
  cases hx : x s with
  | ok a s' =>
    rw [hx] at hrun
    exact hrun
  | error e s' =>
    rw [hx] at hrun
    exact hrun

/-- What holds of the state that is left behind. -/
theorem final {S : σ → Prop} (h : Triple P x (fun _ => S) S) {s : σ} (hs : P s) :
    S (Lib.final x s) := by
  have hrun := h s hs
  unfold Lib.final
  cases hx : x s with
  | ok a s' =>
    rw [hx] at hrun
    exact hrun
  | error e s' =>
    rw [hx] at hrun
    exact hrun

/-- What a program does from one state. -/
theorem start (h : Triple P x Q R) {s : σ} (hs : P s) : Triple (· = s) x Q R := by
  rintro _ rfl
  exact h _ hs

/-- A precondition that holds of no state, or only together with a proposition. -/
theorem of_imp {p : Prop} (h : p → Triple P x Q R) (hp : ∀ s, P s → p) : Triple P x Q R :=
  fun s hs => h (hp s hs) s hs

end Triple

end NessieStore.Lib
