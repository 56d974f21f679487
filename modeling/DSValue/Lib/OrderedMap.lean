import Mathlib.Data.List.Nodup
import Mathlib.Data.List.Sort
import Mathlib.Order.Basic
import Mathlib.Data.FinEnum
import Mathlib.Data.Fintype.Card

/-!
# Ordered maps

A finite map kept as its entries in strictly ascending key order, which is
what iterating a red-black tree map yields.  The order is a field of the
structure, so every map that can be built is well formed.

`insert` never overwrites: the entry already stored under a key wins.
-/

namespace DSValue.Lib

variable {κ ν : Type*}

/-- A finite map, as its entries in ascending key order. -/
structure OrderedMap (κ ν : Type*) [LT κ] where
  entries : List (κ × ν)
  ascending :
    entries.Pairwise (fun earlier later => earlier.1 < later.1)

namespace OrderedMap

instance [LT κ] [DecidableEq κ] [DecidableEq ν] :
    DecidableEq (OrderedMap κ ν) := fun left right =>
  match left, right with
  | ⟨leftEntries, _⟩, ⟨rightEntries, _⟩ =>
      decidable_of_iff (leftEntries = rightEntries) (by simp)

@[ext]
theorem ext [LT κ] {left right : OrderedMap κ ν}
    (equal : left.entries = right.entries) :
    left = right := by
  cases left
  cases right
  simpa using equal

/-- The map without entries. -/
def empty [LT κ] : OrderedMap κ ν :=
  ⟨[], List.Pairwise.nil⟩

/-- The number of entries. -/
def size [LT κ] (map : OrderedMap κ ν) : Nat :=
  map.entries.length

/-- Whether the map has no entry. -/
def isEmpty [LT κ] (map : OrderedMap κ ν) : Bool :=
  map.entries.isEmpty

/-- The entry with the least key. -/
def first? [LT κ] (map : OrderedMap κ ν) : Option (κ × ν) :=
  map.entries.head?

/-- The entry with the greatest key. -/
def last? [LT κ] (map : OrderedMap κ ν) : Option (κ × ν) :=
  map.entries.getLast?

/-- Whether a key has an entry. -/
def contains [LT κ] [DecidableEq κ] (map : OrderedMap κ ν) (key : κ) : Bool :=
  map.entries.any (fun entry => entry.1 = key)

theorem keys_nodup [Preorder κ] (map : OrderedMap κ ν) :
    (map.entries.map Prod.fst).Nodup := by
  rw [List.nodup_iff_pairwise_ne, List.pairwise_map]
  exact map.ascending.imp ne_of_lt

/-- A map holds at most as many entries as there are keys. -/
theorem size_le_card [Preorder κ] [Fintype κ] (map : OrderedMap κ ν) :
    map.size ≤ Fintype.card κ := by
  have bound := map.keys_nodup.length_le_card
  simpa [size] using bound

/-! ## Insertion -/

/-- Insert an entry at its place unless the key is already there. -/
def insertEntry [LT κ] [DecidableLT κ] (key : κ) (value : ν) :
    List (κ × ν) → List (κ × ν)
  | [] => [(key, value)]
  | entry :: rest =>
      if key < entry.1 then (key, value) :: entry :: rest
      else if entry.1 < key then entry :: insertEntry key value rest
      else entry :: rest

theorem mem_insertEntry [LT κ] [DecidableLT κ]
    {key : κ} {value : ν} {entries : List (κ × ν)} {entry : κ × ν}
    (member : entry ∈ insertEntry key value entries) :
    entry = (key, value) ∨ entry ∈ entries := by
  induction entries with
  | nil => simpa [insertEntry] using member
  | cons head tail inductionHypothesis =>
      rw [insertEntry] at member
      split_ifs at member
      · simpa using member
      · rcases List.mem_cons.mp member with atHead | inTail
        · exact Or.inr (by simp [atHead])
        · rcases inductionHypothesis inTail with new | old
          · exact Or.inl new
          · exact Or.inr (List.mem_cons_of_mem _ old)
      · exact Or.inr member

theorem insertEntry_ascending [Preorder κ] [DecidableLT κ]
    (key : κ) (value : ν) {entries : List (κ × ν)}
    (ascending :
      entries.Pairwise (fun earlier later => earlier.1 < later.1)) :
    (insertEntry key value entries).Pairwise
      (fun earlier later => earlier.1 < later.1) := by
  induction entries with
  | nil => simp [insertEntry]
  | cons head tail inductionHypothesis =>
      rcases List.pairwise_cons.mp ascending with ⟨headLeast, tailAscending⟩
      rw [insertEntry]
      split_ifs with before after
      · refine List.pairwise_cons.mpr ⟨?_, ascending⟩
        intro later member
        rcases List.mem_cons.mp member with rfl | inTail
        · exact before
        · exact before.trans (headLeast later inTail)
      · refine List.pairwise_cons.mpr
          ⟨?_, inductionHypothesis tailAscending⟩
        intro later member
        rcases mem_insertEntry member with rfl | inTail
        · exact after
        · exact headLeast later inTail
      · exact ascending

/-- Insertion that keeps an entry already stored under the key. -/
def insert [Preorder κ] [DecidableLT κ]
    (map : OrderedMap κ ν) (key : κ) (value : ν) : OrderedMap κ ν :=
  ⟨insertEntry key value map.entries,
    insertEntry_ascending key value map.ascending⟩

/-! ## Inserting a range -/

variable [LinearOrder κ] {target source : OrderedMap κ ν} {key : κ}
  {value : ν} {entry : κ × ν}

theorem eq_of_mem_of_key_eq
    (map : OrderedMap κ ν) {first second : κ × ν}
    (firstMember : first ∈ map.entries) (secondMember : second ∈ map.entries)
    (sameKey : first.1 = second.1) : first = second :=
  List.inj_on_of_nodup_map map.keys_nodup firstMember secondMember sameKey

theorem mem_insertEntry_iff
    {entries : List (κ × ν)}
    (ascending :
      entries.Pairwise (fun earlier later => earlier.1 < later.1)) :
    entry ∈ insertEntry key value entries ↔
      entry ∈ entries ∨
        entry = (key, value) ∧ ∀ stored ∈ entries, stored.1 ≠ key := by
  induction entries with
  | nil => simp [insertEntry]
  | cons head tail inductionHypothesis =>
      rcases List.pairwise_cons.mp ascending with ⟨headLeast, tailAscending⟩
      have step := inductionHypothesis tailAscending
      rw [insertEntry]
      rcases lt_trichotomy key head.1 with before | same | after
      · have fresh : ∀ stored ∈ head :: tail, stored.1 ≠ key := by
          intro stored member
          rcases List.mem_cons.mp member with rfl | inTail
          · exact before.ne'
          · exact (before.trans (headLeast stored inTail)).ne'
        rw [if_pos before, List.mem_cons, or_comm, and_iff_left fresh]
      · have taken : ¬ ∀ stored ∈ head :: tail, stored.1 ≠ key :=
          fun fresh => fresh head List.mem_cons_self same.symm
        rw [if_neg (by rw [same]; exact lt_irrefl _),
          if_neg (by rw [same]; exact lt_irrefl _),
          or_iff_left fun both : _ ∧ _ => taken both.2]
      · have fresh : (∀ stored ∈ head :: tail, stored.1 ≠ key) ↔
            ∀ stored ∈ tail, stored.1 ≠ key := by
          rw [List.forall_mem_cons, and_iff_right after.ne]
        rw [if_neg (lt_asymm after), if_pos after, List.mem_cons, step, fresh,
          List.mem_cons, or_assoc]

theorem mem_insert_iff :
    entry ∈ (target.insert key value).entries ↔
      entry ∈ target.entries ∨
        entry = (key, value) ∧ ∀ stored ∈ target.entries, stored.1 ≠ key :=
  mem_insertEntry_iff target.ascending

/-- Insert the entries of a map in their order, as `insert(begin(), end())`. -/
def insertRange (target source : OrderedMap κ ν) : OrderedMap κ ν :=
  source.entries.foldl
    (fun map entry => map.insert entry.1 entry.2) target

theorem mem_foldl_insert_iff
    {entries : List (κ × ν)}
    (ascending :
      entries.Pairwise (fun earlier later => earlier.1 < later.1)) :
    entry ∈ (entries.foldl (fun map entry => map.insert entry.1 entry.2)
        target).entries ↔
      entry ∈ target.entries ∨
        entry ∈ entries ∧ ∀ stored ∈ target.entries, stored.1 ≠ entry.1 := by
  induction entries generalizing target with
  | nil => simp
  | cons head tail inductionHypothesis =>
      rcases List.pairwise_cons.mp ascending with ⟨headLeast, tailAscending⟩
      rw [List.foldl_cons, inductionHypothesis tailAscending, mem_insert_iff]
      constructor
      · rintro ((old | ⟨isHead, fresh⟩) | ⟨inTail, fresh⟩)
        · exact Or.inl old
        · rw [isHead]
          exact Or.inr ⟨List.mem_cons_self, fresh⟩
        · refine Or.inr ⟨List.mem_cons_of_mem _ inTail, ?_⟩
          intro stored member
          exact fresh stored (mem_insert_iff.mpr (Or.inl member))
      · rintro (old | ⟨isNew, fresh⟩)
        · exact Or.inl (Or.inl old)
        · rcases List.mem_cons.mp isNew with rfl | inTail
          · exact Or.inl (Or.inr ⟨rfl, fresh⟩)
          · refine Or.inr ⟨inTail, ?_⟩
            intro stored member
            rcases mem_insert_iff.mp member with old | ⟨rfl, -⟩
            · exact fresh stored old
            · exact (headLeast entry inTail).ne

/-- The entries of the target win over those of the range. -/
theorem mem_insertRange_iff :
    entry ∈ (target.insertRange source).entries ↔
      entry ∈ target.entries ∨
        entry ∈ source.entries ∧
          ∀ stored ∈ target.entries, stored.1 ≠ entry.1 :=
  mem_foldl_insert_iff source.ascending

theorem ext_of_mem_iff
    (same : ∀ entry, entry ∈ target.entries ↔ entry ∈ source.entries) :
    target = source := by
  have irreflexive :
      Std.Irrefl fun earlier later : κ × ν => earlier.1 < later.1 :=
    ⟨fun entry => lt_irrefl entry.1⟩
  have antisymmetric :
      Std.Antisymm fun earlier later : κ × ν => earlier.1 < later.1 :=
    ⟨fun _ _ less greater => absurd greater (lt_asymm less)⟩
  exact ext (List.Pairwise.eq_of_mem_iff target.ascending source.ascending same)

/-- The range replaces a map when it holds all of its entries. -/
theorem insertRange_eq_iff :
    target.insertRange source = source ↔
      ∀ entry ∈ target.entries, entry ∈ source.entries := by
  constructor
  · intro replaced entry member
    rw [← replaced]
    exact mem_insertRange_iff.mpr (Or.inl member)
  · intro held
    refine ext_of_mem_iff fun entry => ?_
    rw [mem_insertRange_iff]
    constructor
    · rintro (old | ⟨new, -⟩)
      · exact held entry old
      · exact new
    · intro member
      by_cases fresh : ∀ stored ∈ target.entries, stored.1 ≠ entry.1
      · exact Or.inr ⟨member, fresh⟩
      · push Not at fresh
        rcases fresh with ⟨stored, isStored, sameKey⟩
        rw [← source.eq_of_mem_of_key_eq (held stored isStored) member sameKey]
        exact Or.inl isStored

@[simp]
theorem empty_insertRange (source : OrderedMap κ ν) :
    empty.insertRange source = source :=
  insertRange_eq_iff.mpr fun _ member => absurd member List.not_mem_nil

@[simp]
theorem insertRange_self (map : OrderedMap κ ν) : map.insertRange map = map :=
  insertRange_eq_iff.mpr fun _ member => member

end OrderedMap

end DSValue.Lib
