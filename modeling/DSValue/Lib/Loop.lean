import Mathlib.Order.Basic

/-!
# Loops

A loop is given by its body, which is stuck, ends the loop or asks for another
pass.  `run` executes it with a bound on the number of passes; `Ends` says
that it comes to an end, whatever the number of passes.
-/

namespace DSValue.Lib.Loop

variable {σ : Type*} {body : σ → Option (σ × Bool)}
  {state next final : σ}

/-- The state after at most `fuel` passes, when the loop is over by then. -/
def run (body : σ → Option (σ × Bool)) : Nat → σ → Option σ
  | 0, _ => none
  | fuel + 1, state =>
      match body state with
      | none => none
      | some (next, true) => some next
      | some (next, false) => run body fuel next

/-- The loop ends in a state after finitely many passes. -/
inductive Ends (body : σ → Option (σ × Bool)) : σ → σ → Prop where
  | last {state next : σ} (pass : body state = some (next, true)) :
      Ends body state next
  | again {state next final : σ}
      (pass : body state = some (next, false))
      (rest : Ends body next final) :
      Ends body state final

theorem Ends.run (ends : Ends body state final) :
    ∃ fuel, run body fuel state = some final := by
  induction ends with
  | last pass => exact ⟨1, by rw [Loop.run, pass]⟩
  | again pass _ inductionHypothesis =>
      rcases inductionHypothesis with ⟨fuel, finished⟩
      exact ⟨fuel + 1, by rw [Loop.run, pass]; exact finished⟩

theorem ends_of_run
    {fuel : Nat} (finished : run body fuel state = some final) :
    Ends body state final := by
  induction fuel generalizing state with
  | zero => cases finished
  | succ fuel inductionHypothesis =>
      rw [Loop.run] at finished
      split at finished
      · cases finished
      next after pass =>
        cases finished
        exact Ends.last pass
      next after pass =>
        exact Ends.again pass (inductionHypothesis finished)

/-- A loop has one final state. -/
theorem Ends.unique
    {other : σ} (ends : Ends body state final)
    (otherEnds : Ends body state other) : final = other := by
  induction ends with
  | last pass =>
      cases otherEnds with
      | last otherPass => simpa [pass] using otherPass
      | again otherPass _ => simp [pass] at otherPass
  | again pass _ inductionHypothesis =>
      cases otherEnds with
      | last otherPass => simp [pass] at otherPass
      | again otherPass rest =>
          rw [pass] at otherPass
          cases otherPass
          exact inductionHypothesis rest

/-- The end depends on the first pass only. -/
theorem Ends.of_pass_eq
    {other : σ} (ends : Ends body other final)
    (same : body state = body other) : Ends body state final := by
  cases ends with
  | last pass => exact Ends.last (same.trans pass)
  | again pass rest => exact Ends.again (same.trans pass) rest

/-- What every pass keeps holds in front of the last pass. -/
theorem Ends.invariant
    {goal : σ → Prop}
    (ends : Ends body state final) (keeps : σ → Prop) (start : keeps state)
    (again :
      ∀ state next, keeps state → body state = some (next, false) →
        keeps next)
    (last :
      ∀ state next, keeps state → body state = some (next, true) →
        goal next) :
    goal final := by
  induction ends with
  | last pass => exact last _ _ start pass
  | again pass _ inductionHypothesis =>
      exact inductionHypothesis (again _ _ start pass)

/--
A loop whose body is never stuck and makes a measure smaller in every pass
but the last ends within as many passes as the measure allows, and there holds
what the last pass establishes.
-/
theorem run_reaches
    {goal : σ → Prop} (keeps : σ → Prop) (measure : σ → Nat)
    (pass :
      ∀ state, keeps state →
        ∃ next done, body state = some (next, done) ∧
          (done = false → keeps next ∧ measure next < measure state) ∧
          (done = true → goal next))
    {fuel : Nat} (start : keeps state) (enough : measure state < fuel) :
    ∃ final, run body fuel state = some final ∧ goal final := by
  induction fuel generalizing state with
  | zero => exact absurd enough (Nat.not_lt_zero _)
  | succ fuel inductionHypothesis =>
      rcases pass state start with ⟨next, done, result, smaller, reached⟩
      cases done with
      | true => exact ⟨next, by rw [Loop.run, result], reached rfl⟩
      | false =>
          rcases smaller rfl with ⟨kept, less⟩
          rcases inductionHypothesis kept (by omega) with
            ⟨final, finished, isGoal⟩
          exact ⟨final, by rw [Loop.run, result]; exact finished, isGoal⟩

theorem run_of_measure
    (keeps : σ → Prop) (measure : σ → Nat)
    (pass :
      ∀ state, keeps state →
        ∃ next done, body state = some (next, done) ∧
          (done = false → keeps next ∧ measure next < measure state))
    {fuel : Nat} (start : keeps state) (enough : measure state < fuel) :
    ∃ final, run body fuel state = some final := by
  have step :
      ∀ state, keeps state →
        ∃ next done, body state = some (next, done) ∧
          (done = false → keeps next ∧ measure next < measure state) ∧
          (done = true → True) := by
    intro state kept
    rcases pass state kept with ⟨next, done, result, smaller⟩
    exact ⟨next, done, result, smaller, fun _ => trivial⟩
  rcases run_reaches keeps measure step start enough with ⟨final, finished, -⟩
  exact ⟨final, finished⟩

/-- A pass that changes nothing is repeated forever. -/
theorem run_eq_none_of_fixed
    (fixed : body state = some (state, false)) (fuel : Nat) :
    run body fuel state = none := by
  induction fuel with
  | zero => rfl
  | succ fuel inductionHypothesis =>
      rw [run, fixed]
      exact inductionHypothesis

end DSValue.Lib.Loop
