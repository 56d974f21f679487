import Mathlib.Data.Option.Basic

/-!
# Systems of guarded actions

An action is taken where its guard holds and gives the next state.  A run is a
list of actions, all of them taken, so that every order in which several parties
can act is a run.  What holds in the first state and is kept by every action
holds in every state that a run leads to.
-/

namespace DSValue.Lib

/-- A first state and the actions. -/
structure System (σ α : Type*) where
  init : σ
  step : σ → α → Option σ

namespace System

variable {σ α : Type*} (system : System σ α)

/-- The state behind a list of actions. -/
def runFrom : List α → σ → Option σ
  | [], state => some state
  | action :: actions, state => (system.step state action).bind (runFrom actions)

/-- The state behind a list of actions from the first state on. -/
def run (actions : List α) : Option σ := system.runFrom actions system.init

variable {system} {state next last : σ} {action : α} {actions others : List α}

theorem runFrom_cons
    (taken : system.step state action = some next) :
    system.runFrom (action :: actions) state = system.runFrom actions next := by
  rw [runFrom, taken, Option.bind_some]

theorem runFrom_append :
    system.runFrom (actions ++ others) state =
      (system.runFrom actions state).bind (system.runFrom others) := by
  induction actions generalizing state with
  | nil => rfl
  | cons action actions inductionHypothesis =>
      rw [List.cons_append, runFrom, runFrom]
      cases system.step state action with
      | none => rfl
      | some next => exact inductionHypothesis

theorem runFrom_invariant
    {keeps : σ → Prop} (start : keeps state)
    (step : ∀ state action next, keeps state →
      system.step state action = some next → keeps next)
    (ran : system.runFrom actions state = some last) : keeps last := by
  induction actions generalizing state with
  | nil =>
      cases ran
      exact start
  | cons action actions inductionHypothesis =>
      rcases Option.bind_eq_some_iff.mp ran with ⟨next, taken, rest⟩
      exact inductionHypothesis (step _ _ _ start taken) rest

/-- What every action keeps holds behind every run. -/
theorem run_invariant
    {keeps : σ → Prop} (start : keeps system.init)
    (step : ∀ state action next, keeps state →
      system.step state action = some next → keeps next)
    (ran : system.run actions = some last) : keeps last :=
  runFrom_invariant start step ran

/-- Where every action takes one off a measure a run is as long as what it took. -/
theorem runFrom_length
    (measure : σ → Nat)
    (step : ∀ state action next, system.step state action = some next →
      measure next + 1 = measure state)
    (ran : system.runFrom actions state = some last) :
    actions.length + measure last = measure state := by
  induction actions generalizing state with
  | nil =>
      cases ran
      exact Nat.zero_add _
  | cons action actions inductionHypothesis =>
      rcases Option.bind_eq_some_iff.mp ran with ⟨next, taken, rest⟩
      rw [← step _ _ _ taken, ← inductionHypothesis rest, List.length_cons]
      omega

/--
Where each state that is not final has an action with a smaller measure, a final
state is within reach.
-/
theorem exists_runFrom
    {keeps final : σ → Prop} (measure : σ → Nat) (start : keeps state)
    (onward : ∀ state, keeps state → ¬ final state →
      ∃ action next, system.step state action = some next ∧ keeps next ∧
        (final next ∨ measure next < measure state)) :
    ∃ actions last, system.runFrom actions state = some last ∧ final last := by
  induction size : measure state using Nat.strongRecOn generalizing state with
  | _ most inductionHypothesis =>
      by_cases done : final state
      · exact ⟨[], state, rfl, done⟩
      · rcases onward state start done with ⟨action, next, taken, kept, there | less⟩
        · exact ⟨[action], next, by rw [runFrom_cons taken]; rfl, there⟩
        · rcases inductionHypothesis _ (size ▸ less) kept rfl with
            ⟨actions, last, ran, ended⟩
          exact ⟨action :: actions, last, by rw [runFrom_cons taken, ran], ended⟩

end System

end DSValue.Lib
