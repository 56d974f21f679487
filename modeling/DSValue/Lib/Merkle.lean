import Mathlib.Data.List.Nodup
import Mathlib.Data.List.Range
import Mathlib.Data.Nat.Log
import Mathlib.Data.Set.Function
import Mathlib.Tactic.Ring

/-!
# Hash trees over lists

The values of a list are hashed in pairs, row by row, up to the root.  A last
value without a neighbour is hashed with itself, so that every list has a
tree.  When no two different pairs have the same hash, rows without repeated
values are determined by the rows above them.
-/

namespace DSValue.Lib.Merkle

variable {α : Type*}

/-- The values that are hashed together. -/
def pairs : List α → List (α × α)
  | [] => []
  | [last] => [(last, last)]
  | left :: right :: rest => (left, right) :: pairs rest

/-- The row above a row. -/
def parents (hash : α → α → α) (values : List α) : List α :=
  (pairs values).map fun pair => hash pair.1 pair.2

/-- The row of a height. -/
def row (hash : α → α → α) (values : List α) : Nat → List α
  | 0 => values
  | height + 1 => parents hash (row hash values height)

/-- The length of the row of a height. -/
def width (count height : Nat) : Nat := (count + 2 ^ height - 1) / 2 ^ height

/-- The height of the root. -/
def rootHeight (count : Nat) : Nat := Nat.clog 2 count

/-! ## Lengths -/

theorem length_pairs (values : List α) :
    (pairs values).length = (values.length + 1) / 2 := by
  induction values using pairs.induct with
  | case1 => simp [pairs]
  | case2 last => simp [pairs]
  | case3 left right rest inductionHypothesis =>
      simp only [pairs, List.length_cons, inductionHypothesis]
      omega

theorem length_parents (hash : α → α → α) (values : List α) :
    (parents hash values).length = (values.length + 1) / 2 := by
  rw [parents, List.length_map, length_pairs]

@[simp]
theorem width_zero (count : Nat) : width count 0 = count := by
  simp [width]

theorem width_succ (count height : Nat) :
    width count (height + 1) = (width count height + 1) / 2 := by
  have positive : 0 < 2 ^ height := Nat.two_pow_pos height
  rw [width, width, ← Nat.add_div_right _ positive, Nat.div_div_eq_div_mul,
    Nat.pow_succ]
  congr 1
  omega

theorem length_row (hash : α → α → α) (values : List α) (height : Nat) :
    (row hash values height).length = width values.length height := by
  induction height with
  | zero => rw [width_zero, row]
  | succ height inductionHypothesis =>
      rw [row, length_parents, inductionHypothesis, width_succ]

theorem width_le_one_iff {count : Nat} (height : Nat) :
    width count height ≤ 1 ↔ count ≤ 2 ^ height := by
  have positive : 0 < 2 ^ height := Nat.two_pow_pos height
  rw [width, ← Nat.lt_succ_iff, Nat.div_lt_iff_lt_mul positive]
  omega

theorem width_pos {count : Nat} (some : 0 < count) (height : Nat) :
    0 < width count height := by
  have positive : 0 < 2 ^ height := Nat.two_pow_pos height
  exact Nat.div_pos (by omega) positive

theorem lt_width_iff {count height index : Nat} :
    index < width count height ↔ index * 2 ^ height < count := by
  have positive : 0 < 2 ^ height := Nat.two_pow_pos height
  rw [width, ← Nat.succ_le_iff, Nat.le_div_iff_mul_le positive, Nat.succ_mul]
  omega

theorem width_rootHeight {count : Nat} (some : 0 < count) :
    width count (rootHeight count) = 1 := by
  have upper :=
    (width_le_one_iff _).mpr (Nat.le_pow_clog (by decide : 1 < 2) count)
  have lower := width_pos some (rootHeight count)
  rw [rootHeight] at lower ⊢
  omega

theorem one_lt_width_iff {count height : Nat} :
    1 < width count height ↔ height < rootHeight count := by
  rw [rootHeight, Nat.lt_clog_iff_pow_lt (by decide), ← not_le, ← not_le,
    width_le_one_iff]

/-- The last row holds the root alone. -/
theorem exists_root
    (hash : α → α → α) {values : List α} (some : values ≠ []) :
    ∃ root, row hash values (rootHeight values.length) = [root] := by
  rw [← List.length_eq_one_iff, length_row,
    width_rootHeight (List.length_pos_of_ne_nil some)]

/-! ## The values of a row -/

theorem getElem?_pairs (values : List α) (index : Nat) :
    (pairs values)[index]? =
      values[2 * index]?.bind fun left =>
        (values[min (2 * index + 1) (values.length - 1)]?).map fun right =>
          (left, right) := by
  induction values using pairs.induct generalizing index with
  | case1 => simp [pairs]
  | case2 last =>
      cases index with
      | zero => simp [pairs]
      | succ index => simp [pairs, Nat.mul_succ]
  | case3 left right rest inductionHypothesis =>
      cases index with
      | zero => simp [pairs]
      | succ index =>
          rw [pairs, List.getElem?_cons_succ, inductionHypothesis,
            Nat.mul_succ, List.getElem?_cons_succ, List.getElem?_cons_succ]
          cases found : rest[2 * index]? with
          | none => rfl
          | some value =>
              have inside := (List.getElem?_eq_some_iff.mp found).1
              have shifted :
                  min (2 * index + 2 + 1)
                      ((left :: right :: rest).length - 1) =
                    min (2 * index + 1) (rest.length - 1) + 2 := by
                simp only [List.length_cons]
                omega
              rw [shifted, List.getElem?_cons_succ, List.getElem?_cons_succ]

/-- A parent is hashed from the value at an even index and its neighbour. -/
theorem getElem?_parents
    {hash : α → α → α} {values : List α} {index : Nat} {left right : α}
    (isLeft : values[2 * index]? = some left)
    (isRight :
      values[min (2 * index + 1) (values.length - 1)]? = some right) :
    (parents hash values)[index]? = some (hash left right) := by
  rw [parents, List.getElem?_map, getElem?_pairs, isLeft, Option.bind_some,
    isRight]
  rfl

/-- A last value is hashed with itself. -/
theorem children_of_parent
    {hash : α → α → α} {values : List α} {index : Nat} {value : α}
    (found : (parents hash values)[index]? = some value) :
    ∃ left right, (left, right) ∈ pairs values ∧
      values[2 * index]? = some left ∧
      (if 2 * index + 1 < values.length then
        values[2 * index + 1]? = some right else right = left) ∧
      hash left right = value := by
  rw [parents, List.getElem?_map, Option.map_eq_some_iff] at found
  rcases found with ⟨⟨left, right⟩, isPair, rfl⟩
  refine ⟨left, right, List.mem_of_getElem? isPair, ?_⟩
  rw [getElem?_pairs, Option.bind_eq_some_iff] at isPair
  rcases isPair with ⟨first, isLeft, isPair⟩
  rw [Option.map_eq_some_iff] at isPair
  rcases isPair with ⟨second, isRight, same⟩
  cases same
  refine ⟨isLeft, ?_, rfl⟩
  split_ifs with several
  · rw [show min (2 * index + 1) (values.length - 1) = 2 * index + 1 by
      omega] at isRight
    exact isRight
  · have inside := (List.getElem?_eq_some_iff.mp isLeft).1
    rw [show min (2 * index + 1) (values.length - 1) = 2 * index by omega,
      isLeft] at isRight
    exact (Option.some.inj isRight).symm

theorem row_parents (hash : α → α → α) (values : List α) (height : Nat) :
    row hash (parents hash values) height =
      row hash values (height + 1) := by
  induction height with
  | zero => rfl
  | succ height inductionHypothesis => rw [row, inductionHypothesis, ← row]

/-! ## The leaves below a node -/

/-- The values from which the node of a height at an index is hashed. -/
def leavesBelow (values : List α) (height index : Nat) : List α :=
  (values.drop (index * 2 ^ height)).take (2 ^ height)

theorem leavesBelow_succ (values : List α) (height index : Nat) :
    leavesBelow values (height + 1) index =
      leavesBelow values height (2 * index) ++
        leavesBelow values height (2 * index + 1) := by
  have double : 2 ^ (height + 1) = 2 ^ height + 2 ^ height := by
    rw [Nat.pow_succ]
    omega
  have start : index * 2 ^ (height + 1) = 2 * index * 2 ^ height := by
    rw [Nat.pow_succ]
    ring
  have middle : (2 * index + 1) * 2 ^ height =
      2 * index * 2 ^ height + 2 ^ height := by
    ring
  rw [leavesBelow, leavesBelow, leavesBelow, start, middle, double,
    List.take_add, List.drop_drop]

theorem leavesBelow_eq_nil
    {values : List α} {height index : Nat}
    (beyond : ¬ index < width values.length height) :
    leavesBelow values height index = [] := by
  rw [lt_width_iff, not_lt] at beyond
  rw [leavesBelow, List.drop_eq_nil_of_le beyond, List.take_nil]

theorem leavesBelow_zero
    {values : List α} {index : Nat} {value : α}
    (found : values[index]? = some value) :
    leavesBelow values 0 index = [value] := by
  rcases List.getElem?_eq_some_iff.mp found with ⟨inside, rfl⟩
  rw [leavesBelow, Nat.pow_zero, Nat.mul_one, List.drop_eq_getElem_cons inside]
  rfl

theorem leavesBelow_root
    (values : List α) :
    leavesBelow values (rootHeight values.length) 0 = values := by
  have covered : values.length ≤ 2 ^ rootHeight values.length :=
    Nat.le_pow_clog (by decide) values.length
  rw [leavesBelow, Nat.zero_mul, List.drop_zero, List.take_of_length_le covered]

/-! ## All rows -/

/-- All rows, one after the other, from the values to the root. -/
def rows (hash : α → α → α) (values : List α) : List α :=
  (List.range (rootHeight values.length + 1)).flatMap (row hash values)

theorem rootHeight_of_one_lt {count : Nat} (several : 1 < count) :
    rootHeight count = rootHeight ((count + 1) / 2) + 1 := by
  rw [rootHeight, rootHeight, Nat.clog_of_one_lt (by decide) several,
    show count + 2 - 1 = count + 1 by omega]

theorem rows_of_le_one
    (hash : α → α → α) {values : List α} (few : values.length ≤ 1) :
    rows hash values = values := by
  have height : rootHeight values.length = 0 :=
    Nat.clog_of_right_le_one few 2
  rw [rows, height]
  simp [row]

/-- The rows above the values are the rows of their parents. -/
theorem rows_of_one_lt
    (hash : α → α → α) {values : List α} (several : 1 < values.length) :
    rows hash values = values ++ rows hash (parents hash values) := by
  rw [rows, rootHeight_of_one_lt several, List.range_succ_eq_map,
    List.flatMap_cons, row, List.flatMap_map, rows, length_parents]
  congr 1
  refine congrArg (List.range _).flatMap (funext fun height => ?_)
  exact (row_parents hash values height).symm

theorem getLast?_rows
    (hash : α → α → α) {values : List α} {root : α}
    (isRoot : row hash values (rootHeight values.length) = [root]) :
    (rows hash values).getLast? = some root := by
  rw [rows, List.range_succ, List.flatMap_append, List.flatMap_singleton,
    isRoot, List.getLast?_concat]

/-! ## Rows without repeated values -/

theorem fst_pairs_sublist (values : List α) :
    ((pairs values).map Prod.fst).Sublist values := by
  induction values using pairs.induct with
  | case1 => exact List.Sublist.refl []
  | case2 last => exact List.Sublist.refl [last]
  | case3 left right rest inductionHypothesis =>
      exact (inductionHypothesis.cons right).cons_cons left

theorem nodup_pairs {values : List α} (distinct : values.Nodup) :
    (pairs values).Nodup :=
  List.Nodup.of_map Prod.fst (distinct.sublist (fst_pairs_sublist values))

/-- The last value stands alone in only one of the two readings of its pair. -/
theorem eq_of_pairs_eq
    {first second : List α} (firstDistinct : first.Nodup)
    (secondDistinct : second.Nodup) (same : pairs first = pairs second) :
    first = second := by
  induction first using pairs.induct generalizing second with
  | case1 =>
      rcases second with _ | ⟨left, _ | ⟨right, rest⟩⟩
      · rfl
      · cases same
      · cases same
  | case2 last =>
      rcases second with _ | ⟨left, _ | ⟨right, rest⟩⟩
      · cases same
      · cases same
        rfl
      · simp only [pairs, List.cons.injEq, Prod.mk.injEq] at same
        rcases same with ⟨⟨rfl, rfl⟩, -⟩
        simp at secondDistinct
  | case3 left right rest inductionHypothesis =>
      rcases second with _ | ⟨otherLeft, _ | ⟨otherRight, otherRest⟩⟩
      · cases same
      · simp only [pairs, List.cons.injEq, Prod.mk.injEq] at same
        rcases same with ⟨⟨rfl, rfl⟩, -⟩
        simp at firstDistinct
      · simp only [pairs, List.cons.injEq, Prod.mk.injEq] at same
        rcases same with ⟨⟨rfl, rfl⟩, later⟩
        rw [inductionHypothesis firstDistinct.of_cons.of_cons
          secondDistinct.of_cons.of_cons later]

/-- Lists of one length have their last values read in one way. -/
theorem eq_of_pairs_eq_of_length
    {first second : List α} (length : first.length = second.length)
    (same : pairs first = pairs second) : first = second := by
  induction first using pairs.induct generalizing second with
  | case1 => exact (List.length_eq_zero_iff.mp length.symm).symm
  | case2 last =>
      rcases List.length_eq_one_iff.mp length.symm with ⟨other, rfl⟩
      cases same
      rfl
  | case3 left right rest inductionHypothesis =>
      rcases second with _ | ⟨otherLeft, _ | ⟨otherRight, otherRest⟩⟩
      · cases length
      · cases length
      · simp only [pairs, List.cons.injEq, Prod.mk.injEq] at same
        rcases same with ⟨⟨rfl, rfl⟩, later⟩
        simp only [List.length_cons, Nat.add_right_cancel_iff] at length
        rw [inductionHypothesis length later]

theorem eq_of_map_eq
    {β : Type*} {change : α → β} {free : Set α}
    (injective : Set.InjOn change free) {first second : List α}
    (firstInside : ∀ value ∈ first, value ∈ free)
    (secondInside : ∀ value ∈ second, value ∈ free)
    (same : first.map change = second.map change) : first = second := by
  induction first generalizing second with
  | nil => exact (List.map_eq_nil_iff.mp same.symm).symm
  | cons value values inductionHypothesis =>
      cases second with
      | nil => cases same
      | cons other others =>
          rw [List.map_cons, List.map_cons, List.cons.injEq] at same
          rw [List.forall_mem_cons] at firstInside secondInside
          rw [injective firstInside.1 secondInside.1 same.1,
            inductionHypothesis firstInside.2 secondInside.2 same.2]

variable {hash : α → α → α} {free : Set (α × α)}
  (injective : Set.InjOn (fun pair => hash pair.1 pair.2) free)

include injective

theorem nodup_parents
    {values : List α} (distinct : values.Nodup)
    (inside : ∀ pair ∈ pairs values, pair ∈ free) :
    (parents hash values).Nodup := by
  rw [parents]
  refine List.Nodup.map_on ?_ (nodup_pairs distinct)
  intro first isFirst second isSecond same
  exact injective (inside first isFirst) (inside second isSecond) same

theorem nodup_row
    {values : List α} (distinct : values.Nodup) (height : Nat)
    (inside :
      ∀ below < height, ∀ pair ∈ pairs (row hash values below),
        pair ∈ free) :
    (row hash values height).Nodup := by
  induction height with
  | zero => exact distinct
  | succ height inductionHypothesis =>
      exact nodup_parents injective
        (inductionHypothesis fun below lower =>
          inside below (Nat.lt_succ_of_lt lower))
        (inside height (Nat.lt_succ_self height))

theorem eq_of_parents_eq
    {first second : List α} (firstDistinct : first.Nodup)
    (secondDistinct : second.Nodup)
    (firstInside : ∀ pair ∈ pairs first, pair ∈ free)
    (secondInside : ∀ pair ∈ pairs second, pair ∈ free)
    (same : parents hash first = parents hash second) : first = second := by
  refine eq_of_pairs_eq firstDistinct secondDistinct ?_
  exact eq_of_map_eq injective firstInside secondInside same

/-- Equal rows have equal rows below them, down to the lower tree's leaves. -/
theorem eq_row_of_row_eq
    {first second : List α} (firstDistinct : first.Nodup)
    (secondDistinct : second.Nodup) (height more : Nat)
    (firstInside :
      ∀ below < height, ∀ pair ∈ pairs (row hash first below), pair ∈ free)
    (secondInside :
      ∀ below < height + more, ∀ pair ∈ pairs (row hash second below),
        pair ∈ free)
    (same : row hash first height = row hash second (height + more)) :
    first = row hash second more := by
  induction height with
  | zero =>
      rw [Nat.zero_add] at same
      exact same
  | succ height inductionHypothesis =>
      rw [Nat.succ_add] at secondInside same
      have lower :=
        eq_of_parents_eq injective
          (nodup_row injective firstDistinct height fun below less =>
            firstInside below (Nat.lt_succ_of_lt less))
          (nodup_row injective secondDistinct (height + more)
            fun below less => secondInside below (Nat.lt_succ_of_lt less))
          (firstInside height (Nat.lt_succ_self height))
          (secondInside (height + more) (Nat.lt_succ_self _)) same
      exact inductionHypothesis
        (fun below less => firstInside below (Nat.lt_succ_of_lt less))
        (fun below less => secondInside below (Nat.lt_succ_of_lt less)) lower

/-- Trees of one shape with one root have the same leaves. -/
theorem eq_of_row_eq_of_length
    {first second : List α} (length : first.length = second.length)
    (height : Nat)
    (firstInside :
      ∀ below < height, ∀ pair ∈ pairs (row hash first below), pair ∈ free)
    (secondInside :
      ∀ below < height, ∀ pair ∈ pairs (row hash second below), pair ∈ free)
    (same : row hash first height = row hash second height) :
    first = second := by
  induction height with
  | zero => exact same
  | succ height inductionHypothesis =>
      have lower : row hash first height = row hash second height := by
        apply eq_of_pairs_eq_of_length
        · rw [length_row, length_row, length]
        · exact eq_of_map_eq injective
            (firstInside height (Nat.lt_succ_self height))
            (secondInside height (Nat.lt_succ_self height)) same
      exact inductionHypothesis
        (fun below less => firstInside below (Nat.lt_succ_of_lt less))
        (fun below less => secondInside below (Nat.lt_succ_of_lt less)) lower

end DSValue.Lib.Merkle
