import Mathlib.Logic.Basic
import Mathlib.Data.List.Basic

/-!
# Runs of a labelled step function

A system is a partial step function `step : S → A → Option S`: the label says which party moves
and what its environment answered, and `none` says that the move is not enabled. `Run step K s as t`
is a run of `as` from `s` to `t` all of whose steps meet the side condition `K` (a set of permitted
labels, or a condition on the state before the step). `run` executes a schedule and checks the side
condition on the way, so a concrete run is checked by evaluation.

The rules: an invariant of the permitted steps holds in every state of a run (`Run.keeps`, and
`Run.keeps_along` for invariants that speak of the labels), a system that matches every step of
another matches its runs (`Run.simulate`), and two runs that meet are one (`Run.append`). `watch`
runs a system beside an observer that remembers something of the past and disturbs nothing.
-/

set_option autoImplicit false

namespace NessieStore.Lib

variable {S A : Type*}

/-- A run whose every step is taken in a state that meets `K`. -/
inductive Run (step : S → A → Option S) (K : S → A → Prop) : S → List A → S → Prop
  | nil (s : S) : Run step K s [] s
  | cons {s t u : S} {a : A} {as : List A} :
      K s a → step s a = some t → Run step K t as u → Run step K s (a :: as) u

/-- Execute a schedule; `none` when some move of it is not enabled or not permitted. -/
def run (step : S → A → Option S) (K : S → A → Prop) [∀ s a, Decidable (K s a)] :
    S → List A → Option S
  | s, [] => some s
  | s, a :: as => if K s a then (step s a).bind fun t => run step K t as else none

namespace Run

variable {step : S → A → Option S} {K : S → A → Prop}

/-- The invariant rule, with a side condition that the steps may use. -/
theorem keeps {I : S → Prop}
    (hstep : ∀ {s t : S} {a : A}, K s a → I s → step s a = some t → I t)
    {s t : S} {as : List A} (h : Run step K s as t) (hs : I s) : I t := by
  induction h with
  | nil s => exact hs
  | cons hk ht _ ih => exact ih (hstep hk hs ht)

/-- The invariant rule, for invariants that speak of the labels so far. -/
theorem keeps_along {I : List A → S → Prop}
    (hstep : ∀ {as : List A} {s t : S} {a : A}, K s a → I as s → step s a = some t → I (as ++ [a]) t)
    {s t : S} {as : List A} (h : Run step K s as t) (hs : I [] s) : I as t := by
  have hrun : ∀ before, I before s → I (before ++ as) t := by
    clear hs
    induction h with
    | nil s =>
      intro before hs
      rwa [List.append_nil]
    | cons hk ht _ ih =>
      intro before hs
      rw [List.append_cons]
      exact ih _ (hstep hk hs ht)
  exact hrun [] hs

theorem append {s t u : S} {as bs : List A} (h : Run step K s as t) (h' : Run step K t bs u) :
    Run step K s (as ++ bs) u := by
  induction h with
  | nil s => exact h'
  | cons hk ht _ ih => exact .cons hk ht (ih h')

/-- The simulation rule: a system that can match every step of another one, label by label, can match
its runs. -/
theorem simulate {S' A' : Type*} {step' : S' → A' → Option S'} {K' : S' → A' → Prop}
    {R : S → S' → Prop} {L : A → A' → Prop}
    (hstep : ∀ {s t : S} {s' : S'} {a : A} {a' : A'}, K s a → L a a' → R s s' → step s a = some t →
      ∃ t', K' s' a' ∧ step' s' a' = some t' ∧ R t t')
    {s t : S} {s' : S'} {as : List A} {as' : List A'} (h : Run step K s as t)
    (has : List.Forall₂ L as as') (hs : R s s') : ∃ t', Run step' K' s' as' t' ∧ R t t' := by
  induction h generalizing s' as' with
  | nil s =>
    cases has
    exact ⟨s', .nil s', hs⟩
  | cons hk ht _ ih =>
    cases has with
    | cons ha has =>
      obtain ⟨t', hk', ht', hR⟩ := hstep hk ha hs ht
      obtain ⟨u', hrun, hu⟩ := ih has hR
      exact ⟨u', .cons hk' ht' hrun, hu⟩

/-- A side condition that all labels meet. -/
theorem of_labels {P : A → Prop} {s t : S} {as : List A} (h : Run step K s as t)
    (has : ∀ a ∈ as, P a) : Run step (fun _ a => P a) s as t := by
  induction h with
  | nil s => exact .nil s
  | cons _ ht _ ih =>
    obtain ⟨ha, has⟩ := List.forall_mem_cons.mp has
    exact .cons ha ht (ih has)

/-- One more step at the end of a run. -/
theorem snoc {s t u : S} {a : A} {as : List A} (h : Run step K s as t) (hk : K t a)
    (ht : step t a = some u) : Run step K s (as ++ [a]) u :=
  h.append (.cons hk ht (.nil u))

end Run

/-- An executed schedule is a run. -/
theorem run_sound {step : S → A → Option S} {K : S → A → Prop} [∀ s a, Decidable (K s a)]
    {as : List A} {s t : S} (h : run step K s as = some t) : Run step K s as t := by
  induction as generalizing s with
  | nil =>
    cases h
    exact .nil _
  | cons a as ih =>
    rw [run] at h
    split at h
    · next hk =>
      obtain ⟨u, hu, hrest⟩ := Option.bind_eq_some_iff.mp h
      exact .cons hk hu (ih hrest)
    · cases h

/-- A schedule that ends in a state with property `P`, found by running it. -/
theorem run_exists {step : S → A → Option S} {K : S → A → Prop} [∀ s a, Decidable (K s a)]
    {s : S} {as : List A} {P : S → Prop} [DecidablePred P]
    (h : (run step K s as).any (fun t => decide (P t)) = true) :
    ∃ t, run step K s as = some t ∧ P t := by
  obtain ⟨t, ht, hP⟩ := (Option.any_eq_true _ _).mp h
  exact ⟨t, ht, of_decide_eq_true hP⟩

/-- The system beside an observer of type `O`, which sees each step's state and label. -/
def watch {O : Type*} (step : S → A → Option S) (obs : S → A → O → O) (x : S × O) (a : A) :
    Option (S × O) :=
  (step x.1 a).map fun t => (t, obs x.1 a x.2)

theorem watch_eq_some {O : Type*} {step : S → A → Option S} {obs : S → A → O → O} {x y : S × O}
    {a : A} : watch step obs x a = some y ↔ step x.1 a = some y.1 ∧ y.2 = obs x.1 a x.2 := by
  obtain ⟨t, o⟩ := y
  simp only [watch, Option.map_eq_some_iff, Prod.mk.injEq]
  constructor
  · rintro ⟨u, hu, rfl, rfl⟩
    exact ⟨hu, rfl⟩
  · rintro ⟨hu, rfl⟩
    exact ⟨t, hu, rfl, rfl⟩

end NessieStore.Lib
