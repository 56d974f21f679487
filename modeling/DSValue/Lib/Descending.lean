import DSValue.Lib.Loop
import Mathlib.Data.List.Nodup
import Mathlib.Order.Lattice

/-!
# Scanning a set from its greatest element

A reverse iterator over an ordered set points at a position of the descending
order.  A scan leaves an element behind, or erases some elements and starts
again at the greatest one that is left; either step makes a bound on the
remaining steps smaller.
-/

namespace DSValue.Lib.Descending

variable {α ρ : Type*} {less : α → α → Bool} {values next : List α}
  {it size : Nat} {current value : α}

/-- The values from the greatest to the least. -/
def order (less : α → α → Bool) (values : List α) : List α :=
  values.mergeSort fun first second => !less first second

/-- The values that an iterator has left behind. -/
def passed (less : α → α → Bool) (values : List α) (it : Nat) : List α :=
  (order less values).take it

@[simp]
theorem mem_order : value ∈ order less values ↔ value ∈ values :=
  List.mem_mergeSort

@[simp]
theorem length_order : (order less values).length = values.length :=
  List.length_mergeSort _

theorem nodup_order (distinct : values.Nodup) : (order less values).Nodup :=
  (List.mergeSort_perm values _).nodup_iff.mpr distinct

@[simp]
theorem passed_zero : passed less values 0 = [] :=
  List.take_zero

section Current

variable (found : (order less values)[it]? = some current)

include found

theorem current_mem : current ∈ values :=
  mem_order.mp (List.mem_of_getElem? found)

theorem it_lt_length : it < values.length := by
  rw [← @length_order _ less values]
  exact (List.getElem?_eq_some_iff.mp found).1

theorem mem_passed_succ :
    value ∈ passed less values (it + 1) ↔
      value ∈ passed less values it ∨ value = current := by
  rw [passed, List.take_add_one, found, passed]
  simp

theorem current_not_mem_passed (distinct : values.Nodup) :
    current ∉ passed less values it := by
  intro member
  rcases List.mem_take_iff_getElem.mp member with ⟨index, before, isCurrent⟩
  rcases List.getElem?_eq_some_iff.mp found with ⟨inside, isValue⟩
  have same :=
    ((nodup_order distinct).getElem_inj_iff).mp (isCurrent.trans isValue.symm)
  omega

end Current

theorem mem_passed_of_none
    (ended : (order less values)[it]? = none) (member : value ∈ values) :
    value ∈ passed less values it := by
  rw [passed, List.take_of_length_le (List.getElem?_eq_none_iff.mp ended)]
  exact mem_order.mpr member

section Rank

variable [LinearOrder ρ] {rank : α → ρ}
  (increasing :
    ∀ first second, less first second = true ↔ rank first < rank second)

include increasing

theorem pairwise_order :
    (order less values).Pairwise
      fun first second => rank second ≤ rank first := by
  have upward :
      ∀ first second, (!less first second) = true ↔
        rank second ≤ rank first := by
    intro first second
    rw [Bool.not_eq_true', Bool.eq_false_iff, Ne, increasing, not_lt]
  refine (List.pairwise_mergeSort ?_ ?_ values).imp fun {first second} =>
    (upward first second).mp
  · intro first second third lower upper
    exact (upward first third).mpr
      (((upward second third).mp upper).trans ((upward first second).mp lower))
  · intro first second
    rw [Bool.or_eq_true, upward, upward]
    exact le_total _ _

/-- What is left behind ranks at least as high as the current element. -/
theorem rank_le_of_mem_passed
    (found : (order less values)[it]? = some current)
    (member : value ∈ passed less values it) : rank current ≤ rank value := by
  rcases List.mem_take_iff_getElem.mp member with ⟨index, before, rfl⟩
  rcases List.getElem?_eq_some_iff.mp found with ⟨inside, rfl⟩
  exact List.pairwise_iff_getElem.mp (pairwise_order increasing) index it _
    inside (by omega)

/-- What ranks higher than the current element is left behind. -/
theorem mem_passed_of_rank_lt
    (found : (order less values)[it]? = some current)
    (member : value ∈ values) (higher : rank current < rank value) :
    value ∈ passed less values it := by
  rcases List.getElem?_eq_some_iff.mp found with ⟨inside, rfl⟩
  rcases List.getElem_of_mem (mem_order.mpr member) with
    ⟨index, bounded, isValue⟩
  refine List.mem_take_iff_getElem.mpr ⟨index, ?_, isValue⟩
  rw [← isValue] at higher
  have sorted :=
    List.pairwise_iff_getElem.mp (@pairwise_order _ _ _ values _ _ increasing)
  have before : index < it := by
    rcases Nat.lt_trichotomy index it with earlier | same | later
    · exact earlier
    · subst same
      exact absurd higher (lt_irrefl _)
    · exact absurd (sorted it index inside bounded later) (not_le.mpr higher)
  exact Nat.lt_min.mpr ⟨before, bounded⟩

end Rank

/-! ## The bound on the steps -/

/-- A bound on the steps of a scan that are left. -/
def stepsLeft (size : Nat) (values : List α) (it : Nat) : Nat :=
  values.length * (size + 1) + (values.length - it)

theorem stepsLeft_succ
    (found : (order less values)[it]? = some current) :
    stepsLeft size values (it + 1) < stepsLeft size values it := by
  have inside := it_lt_length found
  rw [stepsLeft, stepsLeft]
  omega

theorem stepsLeft_erase
    (shorter : next.length < values.length)
    (bounded : values.length ≤ size) :
    stepsLeft size next 0 < stepsLeft size values it := by
  have product :
      next.length * (size + 1) + (size + 1) ≤ values.length * (size + 1) := by
    rw [← Nat.succ_mul]
    exact Nat.mul_le_mul_right _ shorter
  rw [stepsLeft, stepsLeft]
  omega

theorem stepsLeft_zero_lt :
    stepsLeft values.length values 0 <
      (values.length + 1) * (values.length + 1) + 1 := by
  rw [stepsLeft, Nat.succ_mul]
  omega

end DSValue.Lib.Descending
