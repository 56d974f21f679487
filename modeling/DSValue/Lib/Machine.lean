import Mathlib.Data.Option.Basic

/-!
# Machines that run out of program

A machine takes steps or is stuck.  Every step makes a measure smaller, so a
run comes to an end, and a machine that is done takes no step.  `exec` is the
state in which the machine is done; it unfolds step by step, it is the same
from every state on the way, and what every step keeps holds there.  `Spends`
adds up what the steps cost.
-/

namespace DSValue.Lib

/-- A machine whose runs are finite. -/
structure Machine (σ : Type*) where
  step : σ → Option σ
  done : σ → Bool
  measure : σ → Nat
  descends : ∀ {state next : σ}, step state = some next →
    measure next < measure state
  stuck : ∀ {state : σ}, done state = true → step state = none

namespace Machine

variable {σ : Type*} (machine : Machine σ)

/-- The state in which the machine is done after at most `bound` steps. -/
def run : Nat → σ → Option σ
  | 0, state => if machine.done state then some state else none
  | bound + 1, state =>
      if machine.done state then some state
      else (machine.step state).bind (run bound)

/-- The state in which the machine is done. -/
def exec (state : σ) : Option σ :=
  machine.run (machine.measure state) state

/-- Some steps lead from one state to another. -/
inductive Reaches : σ → σ → Prop where
  | refl (state : σ) : Reaches state state
  | head {state next last : σ} (step : machine.step state = some next)
      (rest : Reaches next last) : Reaches state last

variable {machine} {state next last : σ} {first second : Nat}

theorem run_of_stuck (bound : Nat) (stuck : machine.step state = none) :
    machine.run bound state = if machine.done state then some state else none := by
  cases bound with
  | zero => rfl
  | succ bound =>
      rw [run, stuck]
      rfl

theorem stuck_of_measure (zero : machine.measure state = 0) :
    machine.step state = none := by
  cases step : machine.step state with
  | none => rfl
  | some next => exact absurd (machine.descends step) (by omega)

/-- All bounds that are large enough give the same state. -/
theorem run_eq_run
    (enough : machine.measure state ≤ first)
    (alsoEnough : machine.measure state ≤ second) :
    machine.run first state = machine.run second state := by
  induction first generalizing state second with
  | zero =>
      have stuck := stuck_of_measure (Nat.le_zero.mp enough)
      rw [run_of_stuck _ stuck, run_of_stuck _ stuck]
  | succ first inductionHypothesis =>
      cases second with
      | zero =>
          have stuck := stuck_of_measure (Nat.le_zero.mp alsoEnough)
          rw [run_of_stuck _ stuck, run_of_stuck _ stuck]
      | succ second =>
          rw [run, run]
          cases step : machine.step state with
          | none => rfl
          | some next =>
              have less := machine.descends step
              rw [Option.bind_some, Option.bind_some,
                inductionHypothesis (by omega : machine.measure next ≤ first)
                  (by omega : machine.measure next ≤ second)]

theorem exec_of_done (done : machine.done state = true) :
    machine.exec state = some state := by
  rw [exec, run_of_stuck _ (machine.stuck done), if_pos done]

/-- A machine that is not done goes on with a step. -/
theorem exec_of_not_done (more : machine.done state = false) :
    machine.exec state = (machine.step state).bind machine.exec := by
  rw [exec]
  cases step : machine.step state with
  | none =>
      rw [run_of_stuck _ step, more]
      rfl
  | some next =>
      have less := machine.descends step
      rcases Nat.exists_eq_succ_of_ne_zero (Nat.ne_zero_of_lt less) with
        ⟨rest, measured⟩
      rw [measured, run, if_neg (by rw [more]; exact Bool.false_ne_true), step]
      exact run_eq_run (by omega) (Nat.le_refl _)

theorem exec_of_step (step : machine.step state = some next) :
    machine.exec state = machine.exec next := by
  have more : machine.done state = false := by
    cases done : machine.done state with
    | false => rfl
    | true =>
        rw [machine.stuck done] at step
        cases step
  rw [exec_of_not_done more, step, Option.bind_some]

theorem Reaches.trans
    (reaches : machine.Reaches state next) (rest : machine.Reaches next last) :
    machine.Reaches state last := by
  induction reaches with
  | refl => exact rest
  | head step _ inductionHypothesis =>
      exact Reaches.head step (inductionHypothesis rest)

theorem Reaches.snoc
    (reaches : machine.Reaches state next) (step : machine.step next = some last) :
    machine.Reaches state last :=
  reaches.trans (Reaches.head step (Reaches.refl last))

/-- Every state on the way is executed to the same end. -/
theorem Reaches.exec_eq (reaches : machine.Reaches state next) :
    machine.exec state = machine.exec next := by
  induction reaches with
  | refl => rfl
  | head step _ inductionHypothesis =>
      rw [exec_of_step step, inductionHypothesis]

/-- What every step keeps holds on the whole way. -/
theorem Reaches.invariant
    {keeps : σ → Prop} (reaches : machine.Reaches state last)
    (start : keeps state)
    (step : ∀ state next, keeps state → machine.step state = some next →
      keeps next) :
    keeps last := by
  induction reaches with
  | refl => exact start
  | head taken _ inductionHypothesis =>
      exact inductionHypothesis (step _ _ start taken)

theorem reaches_of_run (ended : machine.run first state = some last) :
    machine.Reaches state last ∧ machine.done last = true := by
  induction first generalizing state with
  | zero =>
      rw [run] at ended
      split at ended
      next done =>
        cases ended
        exact ⟨Reaches.refl _, done⟩
      · cases ended
  | succ first inductionHypothesis =>
      rw [run] at ended
      split at ended
      next done =>
        cases ended
        exact ⟨Reaches.refl _, done⟩
      · rcases Option.bind_eq_some_iff.mp ended with ⟨next, step, rest⟩
        rcases inductionHypothesis rest with ⟨reaches, done⟩
        exact ⟨Reaches.head step reaches, done⟩

/-- Some steps lead from one state to another and have a price together. -/
inductive Spends (machine : Machine σ) (price : σ → Nat) : σ → Nat → σ → Prop where
  | refl (state : σ) : Spends machine price state 0 state
  | head {state next last : σ} {rest : Nat} (step : machine.step state = some next)
      (others : Spends machine price next rest last) :
      Spends machine price state (price state + rest) last

theorem Spends.reaches
    {price : σ → Nat} {spent : Nat} (spends : machine.Spends price state spent last) :
    machine.Reaches state last := by
  induction spends with
  | refl => exact Reaches.refl _
  | head step _ inductionHypothesis => exact Reaches.head step inductionHypothesis

theorem Reaches.spends
    (price : σ → Nat) (reaches : machine.Reaches state last) :
    ∃ spent, machine.Spends price state spent last := by
  induction reaches with
  | refl => exact ⟨0, Spends.refl _⟩
  | head step _ inductionHypothesis =>
      rcases inductionHypothesis with ⟨rest, others⟩
      exact ⟨_, Spends.head step others⟩

/--
A budget that pays for every step, and for the last one that is tried, pays for
the whole way.
-/
theorem Spends.le
    {price : σ → Nat} {allows : σ → Nat → Prop} {spent bound : Nat}
    (spends : machine.Spends price state spent last) (start : allows state bound)
    (affords : ∀ state bound, allows state bound → price state ≤ bound)
    (step : ∀ state next bound, allows state bound →
      machine.step state = some next →
        ∃ rest, allows next rest ∧ price state + rest ≤ bound) :
    spent + price last ≤ bound := by
  induction spends generalizing bound with
  | refl state =>
      rw [Nat.zero_add]
      exact affords state bound start
  | head taken _ inductionHypothesis =>
      rcases step _ _ _ start taken with ⟨rest, allowed, paid⟩
      have others := inductionHypothesis allowed
      omega

/-- The machine is done in a state exactly if it gets there and is done there. -/
theorem exec_eq_some :
    machine.exec state = some last ↔
      machine.Reaches state last ∧ machine.done last = true :=
  ⟨reaches_of_run, fun both => both.1.exec_eq.trans (exec_of_done both.2)⟩

end Machine

end DSValue.Lib
