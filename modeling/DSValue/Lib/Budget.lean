import Mathlib.Algebra.BigOperators.Group.List.Basic
import Mathlib.Algebra.Ring.Nat
import Mathlib.Data.List.Nodup
import Mathlib.Logic.Function.Basic

/-!
# Serving demands from a budget

Demands are served one after the other.  Each may use a capped part of what
is left of the budget: a demand above its cap is not served and takes the
whole cap away, any other is served and takes what it asks for.
-/

namespace DSValue.Lib.Budget

variable {τ : Type} (cap : τ → Int → Int) (demand : τ → Nat)

/-- What one demand leaves of the budget. -/
def leftOver (budget : Int) (tier : τ) : Int :=
  if cap tier budget < demand tier then budget - cap tier budget
  else budget - demand tier

/-- What some demands leave of the budget. -/
def leftAfter (tiers : List τ) (budget : Int) : Int :=
  tiers.foldl (leftOver cap demand) budget

@[simp]
theorem leftAfter_nil (budget : Int) :
    leftAfter cap demand [] budget = budget :=
  rfl

@[simp]
theorem leftAfter_cons (tier : τ) (rest : List τ) (budget : Int) :
    leftAfter cap demand (tier :: rest) budget =
      leftAfter cap demand rest (leftOver cap demand budget tier) :=
  rfl

variable {cap} {demand}

/-- Caps between zero and the budget. -/
def Lawful (cap : τ → Int → Int) : Prop :=
  ∀ tier budget, 0 ≤ budget → 0 ≤ cap tier budget ∧ cap tier budget ≤ budget

theorem leftOver_bounds
    (lawful : Lawful cap) (tier : τ) {budget : Int} (nonneg : 0 ≤ budget) :
    0 ≤ leftOver cap demand budget tier ∧
      leftOver cap demand budget tier ≤ budget := by
  have bounds := lawful tier budget nonneg
  rw [leftOver]
  split_ifs with exceeds
  · omega
  · omega

theorem leftAfter_bounds
    (lawful : Lawful cap) (tiers : List τ) {budget : Int}
    (nonneg : 0 ≤ budget) :
    0 ≤ leftAfter cap demand tiers budget ∧
      leftAfter cap demand tiers budget ≤ budget := by
  induction tiers generalizing budget with
  | nil => exact ⟨nonneg, Int.le_refl budget⟩
  | cons tier rest inductionHypothesis =>
      have first := @leftOver_bounds _ cap demand lawful tier _ nonneg
      have later := inductionHypothesis first.1
      rw [leftAfter_cons]
      exact ⟨later.1, Int.le_trans later.2 first.2⟩

/-! ## The served demands -/

variable [DecidableEq τ]

section Served

variable (cap demand)

/-- Which demands are served. -/
def served : List τ → Int → τ → Bool
  | [], _ => fun _ => false
  | tier :: rest, budget =>
      Function.update (served rest (leftOver cap demand budget tier)) tier
        (decide (¬ cap tier budget < demand tier))

/-- The served demands of a list together. -/
def servedSum (tiers : List τ) (budget : Int) : Nat :=
  (tiers.map fun tier =>
    if served cap demand tiers budget tier then demand tier else 0).sum

/-- The demand in the middle is decided by what the ones before it leave. -/
theorem served_append
    {before rest : List τ} {tier : τ} (absent : tier ∉ before)
    (budget : Int) :
    served cap demand (before ++ tier :: rest) budget tier =
      decide (¬ cap tier (leftAfter cap demand before budget) <
        demand tier) := by
  induction before generalizing budget with
  | nil => rw [List.nil_append, served, Function.update_self, leftAfter_nil]
  | cons first others inductionHypothesis =>
      rw [List.mem_cons, not_or] at absent
      rw [List.cons_append, served, Function.update_of_ne absent.1,
        inductionHypothesis absent.2, leftAfter_cons]

end Served

/-- The served demands and the rest stay within the budget. -/
theorem servedSum_add_leftAfter_le
    (lawful : Lawful cap) {tiers : List τ} (nodup : tiers.Nodup)
    {budget : Int} (nonneg : 0 ≤ budget) :
    servedSum cap demand tiers budget + leftAfter cap demand tiers budget ≤
      budget := by
  induction tiers generalizing budget with
  | nil => simp [servedSum]
  | cons tier rest inductionHypothesis =>
      rcases List.nodup_cons.mp nodup with ⟨absent, restNodup⟩
      have first := @leftOver_bounds _ cap demand lawful tier _ nonneg
      have later := inductionHypothesis restNodup first.1
      have bounds := lawful tier budget nonneg
      have others :
          (rest.map fun other =>
              if served cap demand (tier :: rest) budget other then
                demand other else 0) =
            rest.map fun other =>
              if served cap demand rest (leftOver cap demand budget tier)
                other then demand other else 0 := by
        apply List.map_congr_left
        intro other member
        have away : other ≠ tier := by
          rintro rfl
          exact absent member
        rw [served, Function.update_of_ne away]
      rw [servedSum, List.map_cons, List.sum_cons, others, served,
        Function.update_self, leftAfter_cons]
      rw [servedSum] at later
      by_cases exceeds : cap tier budget < demand tier
      · have left : leftOver cap demand budget tier =
            budget - cap tier budget := by
          rw [leftOver, if_pos exceeds]
        simp only [exceeds, not_true_eq_false, decide_false,
          Bool.false_eq_true, if_false, Nat.zero_add]
        omega
      · have left : leftOver cap demand budget tier =
            budget - demand tier := by
          rw [leftOver, if_neg exceeds]
        simp only [exceeds, not_false_eq_true, decide_true, if_true]
        push_cast at later ⊢
        omega

end DSValue.Lib.Budget
