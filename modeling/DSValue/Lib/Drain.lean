import Mathlib.Data.List.Basic
import Mathlib.Tactic.Basic

/-!
# Queues that are handled from the front

A consumer handles the items of a queue in turn.  It takes an item, or it
stops and leaves the item at the front, or it fails.  `Takes` relates a state
to the one in which the consumer has taken a run of items, and `Reaches` says
that it comes to an item.  Whether a queue is cleared of its ready items is
decided by the items that the consumer comes to.
-/

namespace DSValue.Lib.Drain

variable {σ ι ε : Type*}

/-- What a consumer does with an item; a stop may leave a changed item. -/
inductive Handling (σ ι ε : Type*) where
  | fail (failure : ε)
  | stop (state : σ) (item : ι)
  | take (state : σ)

/-- The consumer over a queue, with the part of the queue that it leaves. -/
def drain (handle : σ → ι → Handling σ ι ε) (state : σ) :
    List ι → Except ε (σ × List ι)
  | [] => .ok (state, [])
  | item :: items =>
      match handle state item with
      | .fail failure => .error failure
      | .stop next left => .ok (next, left :: items)
      | .take next => drain handle next items

/-- A run of items is taken. -/
inductive Takes (handle : σ → ι → Handling σ ι ε) : σ → List ι → σ → Prop where
  | nil (state : σ) : Takes handle state [] state
  | cons {state next final : σ} {item : ι} {items : List ι}
      (first : handle state item = .take next)
      (later : Takes handle next items final) :
      Takes handle state (item :: items) final

/-- The consumer comes to an item, in the state after the items before it. -/
def Reaches (handle : σ → ι → Handling σ ι ε) (state : σ) (items : List ι)
    (before : σ) (item : ι) : Prop :=
  ∃ taken rest, items = taken ++ item :: rest ∧ Takes handle state taken before

variable {handle : σ → ι → Handling σ ι ε} {state before next final : σ}
  {item : ι} {items taken left : List ι}

theorem Takes.drain_append (takes : Takes handle state taken before)
    (rest : List ι) :
    drain handle state (taken ++ rest) = drain handle before rest := by
  induction takes with
  | nil => rfl
  | cons first _ inductionHypothesis =>
      rw [List.cons_append, drain, first]
      exact inductionHypothesis

/-- What holds of the taken items is extended by every item taken. -/
theorem Takes.invariant
    {Holds : List ι → σ → Prop} {earlier : List ι}
    (step : ∀ earlier state item next, Holds earlier state →
      handle state item = .take next → Holds (earlier ++ [item]) next)
    (takes : Takes handle state taken final) (start : Holds earlier state) :
    Holds (earlier ++ taken) final := by
  induction takes generalizing earlier with
  | nil => rwa [List.append_nil]
  | cons first _ inductionHypothesis =>
      have after := inductionHypothesis (step _ _ _ _ start first)
      rwa [List.append_assoc, List.singleton_append] at after

/-- A consumer that does not fail takes items up to the end or to a stop. -/
theorem drain_eq_ok
    (drained : drain handle state items = .ok (next, left)) :
    ∃ taken, Takes handle state taken next ∧ items = taken ∧ left = [] ∨
      ∃ before item rest last, items = taken ++ item :: rest ∧
        Takes handle state taken before ∧
        handle before item = .stop next last ∧ left = last :: rest := by
  induction items generalizing state with
  | nil =>
      cases drained
      exact ⟨[], Or.inl ⟨.nil _, rfl, rfl⟩⟩
  | cons item items inductionHypothesis =>
      rw [drain] at drained
      cases handled : handle state item with
      | fail failure =>
          rw [handled] at drained
          cases drained
      | stop after last =>
          rw [handled] at drained
          cases drained
          exact ⟨[], Or.inr
            ⟨state, item, items, last, rfl, .nil state, handled, rfl⟩⟩
      | take after =>
          rw [handled] at drained
          rcases inductionHypothesis drained with
            ⟨taken, ⟨takes, rfl, rfl⟩ |
              ⟨before, other, rest, last, rfl, takes, stopped, rfl⟩⟩
          · exact ⟨item :: items, Or.inl ⟨.cons handled takes, rfl, rfl⟩⟩
          · exact ⟨item :: taken, Or.inr ⟨before, other, rest, last, rfl,
              .cons handled takes, stopped, rfl⟩⟩

theorem drain_eq_error
    {failure : ε} (drained : drain handle state items = .error failure) :
    ∃ before item, Reaches handle state items before item ∧
      handle before item = .fail failure := by
  induction items generalizing state with
  | nil => cases drained
  | cons item items inductionHypothesis =>
      rw [drain] at drained
      cases handled : handle state item with
      | fail other =>
          rw [handled] at drained
          cases drained
          exact ⟨state, item, ⟨[], items, rfl, .nil state⟩, handled⟩
      | stop after last =>
          rw [handled] at drained
          cases drained
      | take after =>
          rw [handled] at drained
          rcases inductionHypothesis drained with
            ⟨before, other, ⟨taken, rest, rfl, takes⟩, failed⟩
          exact ⟨before, other, ⟨item :: taken, rest, rfl,
            .cons handled takes⟩, failed⟩

/-! ## Ready items -/

variable {Ready : ι → Prop} {Excused : σ → Prop}

/--
A consumer clears a queue: it does not fail, and unless it is excused no ready
item is left.
-/
def Clears (handle : σ → ι → Handling σ ι ε) (Ready : ι → Prop)
    (Excused : σ → Prop) (state : σ) (items : List ι) : Prop :=
  ∃ next left, drain handle state items = .ok (next, left) ∧
    (Excused next ∨ ∀ item ∈ left, ¬ Ready item)

/-- The consumer fails at an item, or stays at it without an excuse. -/
def Sticks (handle : σ → ι → Handling σ ι ε) (Ready : ι → Prop)
    (Excused : σ → Prop) (before : σ) (item : ι) : Prop :=
  match handle before item with
  | .fail _ => True
  | .stop next last => Ready last ∧ ¬ Excused next
  | .take _ => False

/--
A queue whose items are ready, but for the last one, is cleared exactly when
the consumer sticks at none of the items that it comes to.
-/
theorem clears_iff
    (front : ∀ item ∈ items.dropLast, Ready item)
    (kept : ∀ before item next last, handle before item = .stop next last →
      Ready item → Ready last) :
    Clears handle Ready Excused state items ↔
      ∀ before item, Reaches handle state items before item →
        ¬ Sticks handle Ready Excused before item := by
  constructor
  · rintro ⟨next, left, drained, cleared⟩ before item
      ⟨taken, rest, rfl, takes⟩ sticks
    rw [takes.drain_append, drain] at drained
    rw [Sticks] at sticks
    cases handled : handle before item with
    | fail failure =>
        rw [handled] at drained
        cases drained
    | stop after last =>
        rw [handled] at drained sticks
        cases drained
        rcases cleared with excused | none'
        · exact sticks.2 excused
        · exact none' last List.mem_cons_self sticks.1
    | take after =>
        rw [handled] at sticks
        exact sticks
  · intro smooth
    cases drained : drain handle state items with
    | error failure =>
        rcases drain_eq_error drained with ⟨before, item, reached, failed⟩
        refine absurd ?_ (smooth before item reached)
        rw [Sticks, failed]
        trivial
    | ok result =>
        rcases result with ⟨next, left⟩
        refine ⟨next, left, drained, ?_⟩
        rcases drain_eq_ok drained with
          ⟨taken, ⟨-, -, rfl⟩ |
            ⟨before, item, rest, last, rfl, takes, stopped, rfl⟩⟩
        · exact Or.inr nofun
        · have unstuck := smooth before item ⟨taken, rest, rfl, takes⟩
          rw [Sticks, stopped] at unstuck
          by_cases excused : Excused next
          · exact Or.inl excused
          · have waits : ¬ Ready last := fun ready => unstuck ⟨ready, excused⟩
            have atEnd : rest = [] := by
              by_contra more
              refine waits (kept _ _ _ _ stopped (front item ?_))
              rw [List.dropLast_append_of_ne_nil (List.cons_ne_nil _ _),
                List.dropLast_cons_of_ne_nil more]
              exact List.mem_append_right _ List.mem_cons_self
            rw [atEnd]
            refine Or.inr fun other member => ?_
            rw [List.mem_singleton] at member
            rwa [member]

end DSValue.Lib.Drain
