import DSValue.Lib.MachineInt

/-!
# Runs that end well

A run `Returns` when it ends with a value, and it `Avoids` a kind of failures
when it does not end with one of them.  Both follow from the same property of
the parts of the run.
-/

namespace DSValue.Lib.Outcome

variable {ε α β : Type} {bad : ε → Prop}

/-- The run ends with a value. -/
def Returns (run : Except ε α) : Prop :=
  ∃ value, run = .ok value

/-- The run ends with a value or with a failure of another kind. -/
def Avoids (bad : ε → Prop) (run : Except ε α) : Prop :=
  ∀ failure, run = .error failure → ¬ bad failure

theorem returns_ok (value : α) : Returns (.ok value : Except ε α) :=
  ⟨value, rfl⟩

@[simp]
theorem returns_pure (value : α) : Returns (pure value : Except ε α) :=
  ⟨value, rfl⟩

theorem not_returns_error (failure : ε) :
    ¬ Returns (.error failure : Except ε α) := by
  rintro ⟨value, isValue⟩
  contradiction

theorem returns_bind_iff {first : Except ε α} {next : α → Except ε β} :
    Returns (first >>= next) ↔
      ∃ value, first = .ok value ∧ Returns (next value) := by
  constructor
  · rintro ⟨result, ran⟩
    rcases bind_eq_ok.mp ran with ⟨value, ranFirst, ranNext⟩
    exact ⟨value, ranFirst, result, ranNext⟩
  · rintro ⟨value, ranFirst, result, ranNext⟩
    exact ⟨result, bind_eq_ok.mpr ⟨value, ranFirst, ranNext⟩⟩

theorem Returns.bind {first : Except ε α} {next : α → Except ε β}
    (returns : Returns first) (later : ∀ value, Returns (next value)) :
    Returns (first >>= next) := by
  rcases returns with ⟨value, ran⟩
  exact returns_bind_iff.mpr ⟨value, ran, later value⟩

/-- A fold returns when each of its steps does. -/
theorem returns_foldlM {step : β → α → Except ε β} {values : List α}
    (returns : ∀ value ∈ values, ∀ state, Returns (step state value))
    (state : β) : Returns (values.foldlM step state) := by
  induction values generalizing state with
  | nil => exact returns_pure state
  | cons head tail inductionHypothesis =>
      rw [List.foldlM_cons]
      refine (returns head List.mem_cons_self state).bind fun next => ?_
      exact inductionHypothesis
        (fun value member => returns value (List.mem_cons_of_mem _ member))
        next

theorem Returns.avoids {run : Except ε α} (returns : Returns run) :
    Avoids bad run := by
  rcases returns with ⟨value, rfl⟩
  intro failure isFailure
  contradiction

theorem avoids_pure (value : α) : Avoids bad (pure value : Except ε α) :=
  (returns_pure value).avoids

theorem Avoids.bind {first : Except ε α} {next : α → Except ε β}
    (avoids : Avoids bad first)
    (later : ∀ value, first = .ok value → Avoids bad (next value)) :
    Avoids bad (first >>= next) := by
  cases ran : first with
  | error failure =>
      intro other isOther
      cases isOther
      exact avoids failure ran
  | ok value => exact later value ran

/-- A fold avoids the failures that each of its steps avoids. -/
theorem avoids_foldlM {step : β → α → Except ε β} {values : List α}
    (avoids : ∀ value ∈ values, ∀ state, Avoids bad (step state value))
    (state : β) : Avoids bad (values.foldlM step state) := by
  induction values generalizing state with
  | nil => exact avoids_pure state
  | cons head tail inductionHypothesis =>
      rw [List.foldlM_cons]
      refine (avoids head List.mem_cons_self state).bind fun next _ => ?_
      exact inductionHypothesis
        (fun value member => avoids value (List.mem_cons_of_mem _ member))
        next

end DSValue.Lib.Outcome
