import DSValue.Lib.Loop

/-!
# Consumers of chunks

A stream arrives in chunks, and a consumer takes a front piece of what is left
of a chunk until nothing is left or it fails.  When the pieces that it takes
have the effect of their items one by one, the way the stream was cut does not
matter: the consumer is a fold of its items over the whole stream.
-/

namespace DSValue.Lib.Chunks

variable {σ ε β : Type*}

/-- A pass over what is left of a chunk. -/
def pass (absorb : σ → List β → Except ε (σ × Nat)) :
    Except ε σ × List β → Option ((Except ε σ × List β) × Bool)
  | (.error failure, left) => some ((.error failure, left), true)
  | (.ok state, left) =>
      if left = [] then some ((.ok state, left), true)
      else
        match absorb state left with
        | .error failure => some ((.error failure, left), true)
        | .ok (next, handled) => some ((.ok next, left.drop handled), false)

/-- The loop over one chunk, with a bound on the number of passes. -/
def consume (absorb : σ → List β → Except ε (σ × Nat)) (state : σ)
    (chunk : List β) : Option (Except ε σ) :=
  (Loop.run (pass absorb) (chunk.length + 1) (.ok state, chunk)).map Prod.fst

/-- The loops over the chunks of a stream, up to the first failure. -/
def consumeAll (absorb : σ → List β → Except ε (σ × Nat)) (state : σ) :
    List (List β) → Option (Except ε σ)
  | [] => some (.ok state)
  | chunk :: chunks =>
      match consume absorb state chunk with
      | none => none
      | some (.error failure) => some (.error failure)
      | some (.ok next) => consumeAll absorb next chunks

/-- A piece of a chunk is absorbed like its items, one after the other. -/
structure Itemwise (step : σ → β → Except ε σ)
    (absorb : σ → List β → Except ε (σ × Nat)) (keeps : σ → Prop) : Prop where
  kept :
    ∀ state item next, keeps state → step state item = .ok next → keeps next
  fails :
    ∀ state item failure, keeps state → step state item = .error failure →
      ∀ rest, absorb state (item :: rest) = .error failure
  piece :
    ∀ state item next, keeps state → step state item = .ok next → ∀ rest,
      absorb state (item :: rest) = .ok (next, 1) ∨
      rest ≠ [] ∧ absorb state (item :: rest) =
        (absorb next rest).map fun taken => (taken.1, taken.2 + 1)

variable {step : σ → β → Except ε σ}
  {absorb : σ → List β → Except ε (σ × Nat)} {keeps : σ → Prop} {state : σ}

theorem foldlM_kept
    (itemwise : Itemwise step absorb keeps) {items : List β} {next : σ}
    (start : keeps state) (folded : items.foldlM step state = .ok next) :
    keeps next := by
  induction items generalizing state with
  | nil =>
      cases folded
      exact start
  | cons item items inductionHypothesis =>
      rw [List.foldlM_cons] at folded
      cases first : step state item with
      | error failure =>
          rw [first] at folded
          cases folded
      | ok middle =>
          rw [first] at folded
          exact inductionHypothesis (itemwise.kept _ _ _ start first) folded

/-- What one pass takes from a chunk is a nonempty front piece of it. -/
theorem Itemwise.absorb_eq
    (itemwise : Itemwise step absorb keeps) {chunk : List β}
    (start : keeps state) (nonempty : chunk ≠ []) :
    ∃ taken left, chunk = taken ++ left ∧ taken ≠ [] ∧
      absorb state chunk =
        (taken.foldlM step state).map fun next => (next, taken.length) := by
  induction chunk generalizing state with
  | nil => exact absurd rfl nonempty
  | cons item rest inductionHypothesis =>
      cases first : step state item with
      | error failure =>
          refine ⟨[item], rest, rfl, List.cons_ne_nil _ _, ?_⟩
          rw [itemwise.fails _ _ _ start first, List.foldlM_cons, first]
          rfl
      | ok next =>
          rcases itemwise.piece _ _ _ start first rest with alone | ⟨more, joined⟩
          · refine ⟨[item], rest, rfl, List.cons_ne_nil _ _, ?_⟩
            rw [alone, List.foldlM_cons, first]
            rfl
          · rcases inductionHypothesis (itemwise.kept _ _ _ start first) more with
              ⟨taken, left, split, -, later⟩
            refine ⟨item :: taken, left, by rw [split, List.cons_append],
              List.cons_ne_nil _ _, ?_⟩
            rw [joined, later, List.foldlM_cons, first]
            show _ = (List.foldlM step next taken).map _
            cases List.foldlM step next taken <;> rfl

theorem run_pass
    (itemwise : Itemwise step absorb keeps) {fuel : Nat} {chunk : List β}
    (start : keeps state) (enough : chunk.length < fuel) :
    (Loop.run (pass absorb) fuel (.ok state, chunk)).map Prod.fst =
      some (chunk.foldlM step state) := by
  induction fuel generalizing state chunk with
  | zero => exact absurd enough (Nat.not_lt_zero _)
  | succ fuel inductionHypothesis =>
      rw [Loop.run, pass]
      by_cases empty : chunk = []
      · rw [if_pos empty, empty]
        rfl
      · rw [if_neg empty]
        rcases itemwise.absorb_eq start empty with
          ⟨taken, left, rfl, some', absorbed⟩
        have longer := List.length_pos_iff.mpr some'
        rw [absorbed, List.foldlM_append]
        cases folded : taken.foldlM step state with
        | error failure => rfl
        | ok next =>
            rw [List.length_append] at enough
            show (Loop.run _ fuel (_, (taken ++ left).drop taken.length)).map
              _ = _
            rw [List.drop_left]
            exact inductionHypothesis (foldlM_kept itemwise start folded)
              (by omega)

/-- The loop over a chunk ends, with every item of it taken in turn. -/
theorem consume_eq
    (itemwise : Itemwise step absorb keeps) (start : keeps state)
    (chunk : List β) :
    consume absorb state chunk = some (chunk.foldlM step state) :=
  run_pass itemwise start (Nat.lt_succ_self _)

/-- The cuts of a stream do not matter. -/
theorem consumeAll_eq
    (itemwise : Itemwise step absorb keeps) (start : keeps state)
    (chunks : List (List β)) :
    consumeAll absorb state chunks =
      some (chunks.flatten.foldlM step state) := by
  induction chunks generalizing state with
  | nil => rfl
  | cons chunk chunks inductionHypothesis =>
      rw [consumeAll, consume_eq itemwise start, List.flatten_cons,
        List.foldlM_append]
      cases folded : chunk.foldlM step state with
      | error failure => rfl
      | ok next =>
          exact inductionHypothesis (foldlM_kept itemwise start folded)

end DSValue.Lib.Chunks
