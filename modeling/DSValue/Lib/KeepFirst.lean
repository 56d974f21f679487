import Mathlib.Data.List.AList

/-!
# Insertion that keeps the first entry

`AList.insert` replaces the entry of a key.  A map that keeps the entry it has
looks a key up in the old map first.
-/

namespace DSValue.Lib.KeepFirst

variable {κ ν : Type*} [DecidableEq κ]

/-- A finite map from keys to values. -/
abbrev Table (κ ν : Type*) := AList (fun _ : κ => ν)

/-- Insert an entry unless the key has one. -/
def insertNew (table : Table κ ν) (key : κ) (value : ν) : Table κ ν :=
  if key ∈ table then table else table.insert key value

theorem lookup_insertNew
    (table : Table κ ν) (key other : κ) (value : ν) :
    (insertNew table key value).lookup other =
      (table.lookup other).or (if key = other then some value else none) := by
  rw [insertNew]
  split_ifs with present same same
  · rw [← same]
    rcases Option.isSome_iff_exists.mp (AList.lookup_isSome.mpr present) with
      ⟨stored, found⟩
    rw [found, Option.some_or]
  · rw [Option.or_none]
  · rw [← same, AList.lookup_insert, AList.lookup_eq_none.mpr present,
      Option.none_or]
  · rw [AList.lookup_insert_ne (Ne.symm same), Option.or_none]

end DSValue.Lib.KeepFirst
