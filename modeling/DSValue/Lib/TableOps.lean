import DSValue.Lib.KeepFirst
import Mathlib.Algebra.BigOperators.Ring.Finset
import Mathlib.Data.Fintype.BigOperators

/-!
# Sums over tables and batches of changes

A sum over the entries of a table is a sum over all keys of what a lookup
gives, so that two tables with the same lookups have the same sums.  A batch
sets or erases one key after another.
-/

namespace DSValue.Lib.TableOps

open DSValue.Lib.KeepFirst

variable {κ ν μ A : Type*} [DecidableEq κ]

variable {table : Table κ ν} {key : κ}

/-! ## Lookups -/

theorem mem_table_iff : key ∈ table ↔ ∃ value, table.lookup key = some value := by
  rw [← AList.lookup_isSome, Option.isSome_iff_exists]

theorem lookup_of_mem_entries
    {entry : Sigma fun _ : κ => ν} (member : entry ∈ table.entries) :
    table.lookup entry.1 = some entry.2 :=
  AList.mem_lookup_iff.mpr member

theorem eq_of_lookup_singleton
    {other : κ} {value found : ν}
    (isFound :
      ((∅ : Table κ ν).insert key value).lookup other = some found) :
    value = found := by
  by_cases same : other = key
  · rw [same, AList.lookup_insert] at isFound
    exact Option.some.inj isFound
  · rw [AList.lookup_insert_ne same, AList.lookup_empty] at isFound
    cases isFound

/-! ## Sums -/

section Sums

variable [AddCommMonoid A]

/-- The sum of the weights of the entries. -/
def total (table : Table κ ν) (weight : κ → ν → A) : A :=
  (table.entries.map fun entry => weight entry.1 entry.2).sum

theorem total_insert
    {table : Table κ ν} {key : κ} (absent : key ∉ table) (value : ν)
    (weight : κ → ν → A) :
    total (table.insert key value) weight =
      weight key value + total table weight := by
  rw [total, AList.entries_insert_of_notMem absent, List.map_cons,
    List.sum_cons]
  rfl

theorem total_eq_sum
    [Fintype κ] (table : Table κ ν) (weight : κ → ν → A) :
    total table weight = ∑ key, (table.lookup key).elim 0 (weight key) := by
  induction table using AList.insertRec with
  | H0 =>
      rw [Finset.sum_eq_zero fun key _ => by rw [AList.lookup_empty]; rfl]
      rfl
  | IH first value rest absent inductionHypothesis =>
      have split :
          ∀ key, ((rest.insert first value).lookup key).elim 0 (weight key) =
            (if key = first then weight key value else 0) +
              (rest.lookup key).elim 0 (weight key) := by
        intro key
        by_cases isFirst : key = first
        · rw [isFirst, AList.lookup_insert, if_pos rfl,
            AList.lookup_eq_none.mpr absent]
          exact (add_zero _).symm
        · rw [AList.lookup_insert_ne isFirst, if_neg isFirst, zero_add]
      rw [total_insert absent, inductionHypothesis]
      simp only [split]
      rw [Finset.sum_add_distrib, Finset.sum_ite_eq' Finset.univ first,
        if_pos (Finset.mem_univ first)]

end Sums

/-! ## Batches -/

/-- Set or erase a key. -/
def update (table : Table κ ν) (key : κ) : Option ν → Table κ ν
  | none => table.erase key
  | some value => table.insert key value

theorem lookup_update
    (table : Table κ ν) (key other : κ) (value : Option ν) :
    (update table key value).lookup other =
      if other = key then value else table.lookup other := by
  cases value with
  | none =>
      rw [update]
      split_ifs with same
      · rw [same, AList.lookup_erase]
      · rw [AList.lookup_erase_ne same]
  | some value =>
      rw [update]
      split_ifs with same
      · rw [same, AList.lookup_insert]
      · rw [AList.lookup_insert_ne same]

/-- Apply what becomes of each entry of a table. -/
def updateAll (table : Table κ ν) (changes : Table κ μ)
    (become : μ → Option ν) : Table κ ν :=
  changes.entries.foldl
    (fun table entry => update table entry.1 (become entry.2)) table

theorem lookup_foldl_update
    {entries : List (Sigma fun _ : κ => μ)} (distinct : entries.NodupKeys)
    (table : Table κ ν) (become : μ → Option ν) (key : κ) :
    (entries.foldl
        (fun table entry => update table entry.1 (become entry.2))
        table).lookup key =
      match entries.dlookup key with
      | none => table.lookup key
      | some value => become value := by
  induction entries generalizing table with
  | nil => rfl
  | cons head tail inductionHypothesis =>
      rcases List.nodupKeys_cons.mp distinct with ⟨fresh, rest⟩
      rw [List.foldl_cons, inductionHypothesis rest, lookup_update]
      by_cases isHead : key = head.1
      · have absent : tail.dlookup key = none := by
          rw [List.dlookup_eq_none, isHead]
          exact fresh
        rw [absent, isHead, List.dlookup_cons_eq, if_pos rfl]
      · rw [List.dlookup_cons_ne _ _ isHead, if_neg isHead]

theorem lookup_updateAll
    (table : Table κ ν) (changes : Table κ μ) (become : μ → Option ν)
    (key : κ) :
    (updateAll table changes become).lookup key =
      match changes.lookup key with
      | none => table.lookup key
      | some value => become value :=
  lookup_foldl_update changes.nodupKeys table become key

end DSValue.Lib.TableOps
