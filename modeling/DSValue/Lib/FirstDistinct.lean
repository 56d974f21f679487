import Mathlib.Data.List.Nodup
import Mathlib.Data.Nat.Find

/-!
# The first distinct values of a sequence

A sequence that has a value at some of its positions is read until a number of
different values is found.  `collect` is what a reader has found behind some
positions, `Firsts` says that a position is the first behind which there are
enough.
-/

namespace DSValue.Lib.FirstDistinct

variable {α : Type*} [DecidableEq α]

/-- Append a value that has not been seen. -/
def push (seen : List α) : Option α → List α
  | none => seen
  | some value => if value ∈ seen then seen else seen ++ [value]

/-- What has been seen behind some positions of a sequence. -/
def collect (values : Nat → Option α) (seen : List α) (start : Nat) :
    Nat → List α
  | 0 => seen
  | steps + 1 => push (collect values seen start steps) (values (start + steps))

/-- The sequence without some values. -/
def avoiding (avoid : List α) (values : Nat → Option α) (position : Nat) :
    Option α :=
  match values position with
  | none => none
  | some value => if value ∈ avoid then none else some value

/-- The first `size` distinct values from `start` on end in front of `stop`. -/
structure Firsts
    (values : Nat → Option α) (start size stop : Nat) (found : List α) :
    Prop where
  after : start ≤ stop
  collected : found = collect values [] start (stop - start)
  enough : found.length = size
  least :
    ∀ steps, start + steps < stop →
      (collect values [] start steps).length < size

theorem length_push_le (seen : List α) (value : Option α) :
    (push seen value).length ≤ seen.length + 1 := by
  cases value with
  | none => exact Nat.le_succ _
  | some value =>
      rw [push]
      split_ifs <;> simp

theorem mem_push {seen : List α} {value : Option α} {element : α} :
    element ∈ push seen value ↔ element ∈ seen ∨ value = some element := by
  cases value with
  | none => simp [push]
  | some value =>
      rw [push, Option.some.injEq]
      split_ifs with known
      · constructor
        · exact Or.inl
        · rintro (old | rfl)
          · exact old
          · exact known
      · rw [List.mem_append, List.mem_singleton, eq_comm]

theorem nodup_push {seen : List α} (nodup : seen.Nodup) (value : Option α) :
    (push seen value).Nodup := by
  cases value with
  | none => exact nodup
  | some value =>
      rw [push]
      split_ifs with known
      · exact nodup
      · rw [← List.concat_eq_append]
        exact nodup.concat known

theorem mem_collect
    {values : Nat → Option α} {seen : List α} {start steps : Nat}
    {element : α} :
    element ∈ collect values seen start steps ↔
      element ∈ seen ∨ ∃ step < steps, values (start + step) = some element := by
  induction steps with
  | zero => simp [collect]
  | succ steps inductionHypothesis =>
      rw [collect, mem_push, inductionHypothesis, or_assoc]
      apply or_congr_right
      constructor
      · rintro (⟨step, below, isValue⟩ | isValue)
        · exact ⟨step, by omega, isValue⟩
        · exact ⟨steps, by omega, isValue⟩
      · rintro ⟨step, below, isValue⟩
        rcases Nat.lt_succ_iff_lt_or_eq.mp below with earlier | rfl
        · exact Or.inl ⟨step, earlier, isValue⟩
        · exact Or.inr isValue

theorem nodup_collect
    {seen : List α} (nodup : seen.Nodup) (values : Nat → Option α)
    (start steps : Nat) : (collect values seen start steps).Nodup := by
  induction steps with
  | zero => exact nodup
  | succ steps inductionHypothesis =>
      exact nodup_push inductionHypothesis _

theorem avoiding_eq_some
    {avoid : List α} {values : Nat → Option α} {position : Nat} {value : α} :
    avoiding avoid values position = some value ↔
      values position = some value ∧ value ∉ avoid := by
  rw [avoiding]
  cases values position with
  | none => simp
  | some found =>
      simp only [Option.some.injEq]
      split_ifs with known
      · constructor
        · intro impossible
          cases impossible
        · rintro ⟨rfl, away⟩
          exact absurd known away
      · constructor
        · intro same
          cases same
          exact ⟨rfl, known⟩
        · rintro ⟨rfl, -⟩
          rfl

theorem push_append
    (seen later : List α) (values : Nat → Option α) (position : Nat) :
    push (seen ++ later) (values position) =
      seen ++ push later (avoiding seen values position) := by
  rw [avoiding]
  cases values position with
  | none => rfl
  | some value =>
      by_cases known : value ∈ seen
      · simp [push, known]
      · by_cases inLater : value ∈ later
        · simp [push, known, inLater]
        · simp [push, known, inLater]

/-- Values that were there before are passed over. -/
theorem collect_eq_append
    (values : Nat → Option α) (seen : List α) (start steps : Nat) :
    collect values seen start steps =
      seen ++ collect (avoiding seen values) [] start steps := by
  induction steps with
  | zero => simp [collect]
  | succ steps inductionHypothesis =>
      rw [collect, inductionHypothesis, push_append, collect]

theorem collect_congr
    {values others : Nat → Option α} (seen : List α) {start steps : Nat}
    (same : ∀ step < steps, values (start + step) = others (start + step)) :
    collect values seen start steps = collect others seen start steps := by
  induction steps with
  | zero => rfl
  | succ steps inductionHypothesis =>
      rw [collect, collect,
        inductionHypothesis fun step below => same step (by omega),
        same steps (by omega)]

theorem Firsts.unique
    {values : Nat → Option α} {start size stop other : Nat}
    {found otherFound : List α} (firsts : Firsts values start size stop found)
    (others : Firsts values start size other otherFound) :
    stop = other ∧ found = otherFound := by
  have after := firsts.after
  have otherAfter := others.after
  have length := firsts.enough
  have otherLength := others.enough
  rw [firsts.collected] at length
  rw [others.collected] at otherLength
  have same : stop = other := by
    rcases Nat.lt_trichotomy stop other with below | equal | above
    · have fewer := others.least (stop - start) (by omega)
      omega
    · exact equal
    · have fewer := firsts.least (other - start) (by omega)
      omega
  exact ⟨same, by rw [firsts.collected, others.collected, same]⟩

/-- Where enough values have been seen, there is a first such position. -/
theorem exists_firsts
    {values : Nat → Option α} {start size steps : Nat}
    (enough : size ≤ (collect values [] start steps).length) :
    ∃ stop found, Firsts values start size stop found := by
  have reached :
      ∃ steps, size ≤ (collect values [] start steps).length :=
    ⟨steps, enough⟩
  have isLeast :
      ∀ earlier < Nat.find reached,
        (collect values [] start earlier).length < size := by
    intro earlier below
    have notReached := Nat.find_min reached below
    omega
  have atLeast := Nat.find_spec reached
  refine ⟨start + Nat.find reached,
    collect values [] start (Nat.find reached), by omega, ?_, ?_, ?_⟩
  · rw [Nat.add_sub_cancel_left]
  · apply Nat.le_antisymm _ atLeast
    cases isSteps : Nat.find reached with
    | zero => exact Nat.zero_le _
    | succ earlier =>
        have fewer := isLeast earlier (by omega)
        have one :=
          length_push_le (collect values [] start earlier)
            (values (start + earlier))
        rw [collect]
        omega
  · intro earlier below
    exact isLeast earlier (by omega)

/-- What is passed over decides what is found. -/
theorem Firsts.perm_avoiding_iff
    {values : Nat → Option α} {avoid : List α}
    {start size stop other : Nat} {found otherFound : List α}
    (firsts : Firsts values start size stop found)
    (others : Firsts (avoiding avoid values) start size other otherFound) :
    found.Perm otherFound ↔ ∀ value ∈ found, value ∉ avoid := by
  constructor
  · intro perm value member
    have inOther := perm.mem_iff.mp member
    rw [others.collected, mem_collect] at inOther
    rcases inOther with nowhere | ⟨step, -, isValue⟩
    · cases nowhere
    · exact (avoiding_eq_some.mp isValue).2
  · intro away
    have kept :
        ∀ step < stop - start,
          values (start + step) = avoiding avoid values (start + step) := by
      intro step below
      cases isValue : values (start + step) with
      | none => rw [avoiding, isValue]
      | some value =>
          have member : value ∈ found := by
            rw [firsts.collected, mem_collect]
            exact Or.inr ⟨step, below, isValue⟩
          exact (avoiding_eq_some.mpr ⟨isValue, away value member⟩).symm
    have same : Firsts (avoiding avoid values) start size stop found := by
      refine ⟨firsts.after, ?_, firsts.enough, ?_⟩
      · rw [firsts.collected]
        exact collect_congr [] kept
      · intro steps below
        rw [← collect_congr [] fun step earlier => kept step (by omega)]
        exact firsts.least steps below
    rw [(same.unique others).2]

/-- Without avoiding anything at least as many values are found. -/
theorem length_avoiding_le
    (values : Nat → Option α) (avoid : List α) (start steps : Nat) :
    (collect (avoiding avoid values) [] start steps).length ≤
      (collect values [] start steps).length := by
  apply List.Nodup.length_le_of_subset
  · exact nodup_collect List.nodup_nil _ start steps
  · intro value member
    rw [mem_collect] at member ⊢
    rcases member with nowhere | ⟨step, below, isValue⟩
    · cases nowhere
    · exact Or.inr ⟨step, below, (avoiding_eq_some.mp isValue).1⟩

end DSValue.Lib.FirstDistinct
