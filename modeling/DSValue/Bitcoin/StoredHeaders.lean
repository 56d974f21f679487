import DSValue.Bitcoin.HeaderChoice
import DSValue.Bitcoin.Retargeting
import Mathlib.Data.Finset.Card

/-!
# Stored headers

Connecting a tip leaves the record of each of its ancestors in the database,
and every record belongs to a known header.  Loading such a database gives the
indexes of the stored headers back, unless a header hashes to one of the two
hashes that stand for no predecessor.
-/

namespace DSValue.Bitcoin.StoredHeaders

open DSValue.Lib
open DSValue.Lib.KeepFirst
open DSValue.Core.Serialize
open DSValue.Consensus.CheckLottoResult
open DSValue.Bitcoin.HeaderTree
open DSValue.Bitcoin.Retargeting
open DSValue.Bitcoin.ChainManager
open DSValue.Bitcoin.HeaderChoice

variable {env : BitcoinEnv} {headers loaded : HeaderMap}
  {db next : CBlockTreeDB} {hash : Uint256} {block : CBitcoinBlock}
  {tip pindex pprev : BitcoinIndex}

/-! ## Known headers -/

/-- The known headers form one tree, and each is found by its hash. -/
structure KnownHeaders (env : BitcoinEnv) (headers : HeaderMap) : Prop where
  tree : SoundTree env headers
  keyed :
    ∀ hash pindex, headers.lookup hash = some pindex →
      env.getHash pindex.item = hash
  linked :
    ∀ hash pindex, headers.lookup hash = some pindex → Linked env pindex
  ancestors :
    ∀ hash pindex, headers.lookup hash = some pindex →
      ∀ ancestor ≤ pindex,
        headers.lookup (env.getHash ancestor.item) = some ancestor

theorem KnownHeaders.distinct
    (known : KnownHeaders env headers)
    (found : headers.lookup hash = some pindex) :
    DistinctHashes env pindex := by
  intro first firstBelow second secondBelow same
  have foundFirst := known.ancestors hash pindex found first firstBelow
  have foundSecond := known.ancestors hash pindex found second secondBelow
  rw [same, foundSecond] at foundFirst
  exact (Option.some.inj foundFirst).symm

theorem lookup_start
    (isStart : env.getHash firstBlock = hashBitcoinStartBlock) :
    (env.addToBlockIndex ∅ firstBlock).lookup hash = some pindex ↔
      hash = hashBitcoinStartBlock ∧ pindex = .root firstBlock := by
  rw [BitcoinEnv.addToBlockIndex, lookup_insertNew, AList.lookup_empty,
    Option.none_or, isStart]
  constructor
  · intro found
    split_ifs at found with same
    cases found
    exact ⟨same.symm, rfl⟩
  · rintro ⟨rfl, rfl⟩
    rw [if_pos rfl]
    rfl

theorem knownHeaders_start
    (isStart : env.getHash firstBlock = hashBitcoinStartBlock) :
    KnownHeaders env (env.addToBlockIndex ∅ firstBlock) where
  tree := soundTree_start isStart
  keyed := by
    intro hash pindex found
    rcases (lookup_start isStart).mp found with ⟨rfl, rfl⟩
    exact isStart
  linked := by
    intro hash pindex found
    rcases (lookup_start isStart).mp found with ⟨-, rfl⟩
    exact ⟨rfl, isStart⟩
  ancestors := by
    intro hash pindex found ancestor below
    rcases (lookup_start isStart).mp found with ⟨-, rfl⟩
    rw [Lineage.le_root_iff.mp below]
    exact (lookup_start isStart).mpr ⟨isStart, rfl⟩

theorem lookup_insertNew_child
    (fresh : env.getHash block ∉ headers) :
    (insertNew headers (env.getHash block) (.child pprev block)).lookup hash =
        some pindex ↔
      headers.lookup hash = some pindex ∨
        hash = env.getHash block ∧ pindex = .child pprev block := by
  rw [lookup_insertNew]
  cases found : headers.lookup hash with
  | some old =>
      rw [Option.some_or, Option.some.injEq]
      refine (or_iff_left ?_).symm
      rintro ⟨rfl, -⟩
      exact fresh (AList.lookup_isSome.mp (by rw [found]; rfl))
  | none =>
      rw [Option.none_or]
      split_ifs with same
      · simp [same, eq_comm]
      · simp [Ne.symm same]

/-- A header on a known one is known, with the same tree below it. -/
theorem knownHeaders_insertNew
    (known : KnownHeaders env headers) (fresh : env.getHash block ∉ headers)
    (notStart : env.getHash block ≠ hashBitcoinStartBlock)
    (parent : headers.lookup block.hashPrevBlock = some pprev)
    (required : env.getNextWorkRequired (some pprev) block = .ok block.nBits) :
    KnownHeaders env
      (insertNew headers (env.getHash block) (.child pprev block)) where
  tree :=
    soundTree_insertNew known.tree
      (Or.inr ⟨notStart, required, known.tree.sound _ pprev parent⟩)
  keyed := by
    intro hash pindex found
    rcases (lookup_insertNew_child fresh).mp found with old | ⟨rfl, rfl⟩
    · exact known.keyed hash pindex old
    · rfl
  linked := by
    intro hash pindex found
    rcases (lookup_insertNew_child fresh).mp found with old | ⟨-, rfl⟩
    · exact known.linked hash pindex old
    · exact ⟨notStart, (known.keyed _ pprev parent).symm,
        known.linked _ pprev parent⟩
  ancestors := by
    intro hash pindex found ancestor below
    rw [lookup_insertNew_child fresh]
    rcases (lookup_insertNew_child fresh).mp found with old | ⟨-, rfl⟩
    · exact Or.inl (known.ancestors hash pindex old ancestor below)
    · rcases Lineage.le_child_iff.mp below with rfl | lower
      · exact Or.inr ⟨rfl, rfl⟩
      · exact Or.inl (known.ancestors _ pprev parent ancestor lower)

/-! ## Stored headers -/

/-- The database has the records of an index and of its ancestors. -/
def Saved (env : BitcoinEnv) (db : CBlockTreeDB) (pindex : BitcoinIndex) :
    Prop :=
  ∀ ancestor ≤ pindex,
    db.blockIndexes.lookup (env.getHash ancestor.item) =
      some (connectedIndex env ancestor)

/-- The database of a manager with a tip. -/
structure Stored
    (env : BitcoinEnv) (headers : HeaderMap) (db : CBlockTreeDB)
    (tip : BitcoinIndex) : Prop where
  records :
    ∀ hash ∈ db.blockIndexes,
      ∃ pindex, headers.lookup hash = some pindex ∧ Saved env db pindex
  tipSaved : Saved env db tip
  best : db.bestBlockHash = some (env.getHash tip.item)

/-- Connecting a tip overwrites no record with another one. -/
theorem Saved.of_written
    {fork last : BitcoinIndex} (known : KnownHeaders env headers)
    (found : headers.lookup hash = some pindex)
    {other : Uint256} (foundLast : headers.lookup other = some last)
    (saved : Saved env db pindex) (written : Written env db fork last next) :
    Saved env next pindex := by
  intro ancestor below
  by_cases connected : ancestor ≤ last ∧ fork < ancestor
  · exact written.stored ancestor connected.1 connected.2
  · rw [written.kept]
    · exact saved ancestor below
    · intro index onWay above same
      have foundIndex := known.ancestors other last foundLast index onWay
      rw [same, known.ancestors hash pindex found ancestor below] at foundIndex
      cases foundIndex
      exact connected ⟨onWay, above⟩

/-- The new tip is stored with the indexes that were connected. -/
theorem Saved.last
    {fork last : BitcoinIndex} (known : KnownHeaders env headers)
    (found : headers.lookup hash = some last) (below : fork ≤ last)
    (saved : Saved env db fork) (written : Written env db fork last next) :
    Saved env next last := by
  have forkFound := known.ancestors hash last found fork below
  have forkSaved := Saved.of_written known forkFound found saved written
  intro ancestor onWay
  rcases Lineage.le_total_of_le onWay below with lower | upper
  · exact forkSaved ancestor lower
  · rcases eq_or_lt_of_le upper with rfl | above
    · exact forkSaved _ le_rfl
    · exact written.stored ancestor onWay above

theorem Saved.mono
    {ancestor : BitcoinIndex} (saved : Saved env db pindex)
    (below : ancestor ≤ pindex) : Saved env db ancestor :=
  fun lower under => saved lower (under.trans below)

/-- Connecting a known header that is not an ancestor of the tip. -/
theorem Stored.of_written
    {fork last : BitcoinIndex} (known : KnownHeaders env headers)
    (found : headers.lookup hash = some last)
    (stored : Stored env headers db tip) (onActive : fork ≤ tip)
    (onLast : fork ≤ last) (notBelow : ¬ last ≤ tip)
    (written : Written env db fork last next) :
    Stored env headers next last := by
  have lastSaved :=
    Saved.last known found onLast (stored.tipSaved.mono onActive) written
  refine ⟨?_, lastSaved, ?_⟩
  · intro other member
    by_cases connected :
        ∃ index ≤ last, fork < index ∧ env.getHash index.item = other
    · rcases connected with ⟨index, onWay, -, rfl⟩
      exact ⟨index, known.ancestors hash last found index onWay,
        lastSaved.mono onWay⟩
    · have untouched := written.kept other
        fun index onWay above same => connected ⟨index, onWay, above, same⟩
      have old : other ∈ db.blockIndexes := by
        rw [← AList.lookup_isSome, ← untouched]
        exact AList.lookup_isSome.mpr member
      rcases stored.records other old with ⟨pindex, isKnown, saved⟩
      exact ⟨pindex, isKnown, saved.of_written known isKnown found written⟩
  · rw [written.best, if_neg]
    rintro rfl
    exact notBelow onActive

/-- More known headers. -/
theorem Stored.of_known
    {more : HeaderMap}
    (grown :
      ∀ hash pindex, headers.lookup hash = some pindex →
        more.lookup hash = some pindex)
    (stored : Stored env headers db tip) : Stored env more db tip where
  records := by
    intro hash member
    rcases stored.records hash member with ⟨pindex, found, saved⟩
    exact ⟨pindex, grown hash pindex found, saved⟩
  tipSaved := stored.tipSaved
  best := stored.best

/-! ## Loading -/

/-- No record has one of the hashes that stand for no predecessor. -/
def NoNull (db : CBlockTreeDB) : Prop :=
  ∀ hash ∈ db.blockIndexes, hash ≠ 0 ∧ hash ≠ hashBitcoinStartPreBlock

theorem Saved.mem (saved : Saved env db pindex) :
    env.getHash pindex.item ∈ db.blockIndexes :=
  AList.lookup_isSome.mp (by rw [saved pindex le_rfl]; rfl)

theorem insertBitcoinBlockIndex_null
    (null : hash = 0 ∨ hash = hashBitcoinStartPreBlock) (left : Nat) :
    insertBitcoinBlockIndex db left hash = .ok none := by
  cases left <;> exact if_pos null

/-- The pointer of a stored header is its index. -/
theorem insertBitcoinBlockIndex_of_saved
    (linked : Linked env pindex) (saved : Saved env db pindex)
    (noNull : NoNull db) {left : Nat} (enough : pindex.height < left) :
    insertBitcoinBlockIndex db left (env.getHash pindex.item) =
      .ok (some pindex) := by
  obtain ⟨left, rfl⟩ := Nat.exists_eq_succ_of_ne_zero (Nat.ne_zero_of_lt enough)
  have proper := not_or.mpr (noNull _ saved.mem)
  induction pindex generalizing left with
  | root block =>
      simp only [insertBitcoinBlockIndex, if_neg proper, saved _ le_rfl,
        header_connectedIndex linked, hashPrev_connectedIndex linked,
        Lineage.pprev?, Option.elim_none,
        insertBitcoinBlockIndex_null (Or.inr rfl)]
      rfl
  | child pprev block inductionHypothesis =>
      have parentSaved := saved.mono (Lineage.le_child pprev block)
      have deep : pprev.height < left := Nat.lt_of_succ_lt_succ enough
      obtain ⟨deeper, rfl⟩ :=
        Nat.exists_eq_succ_of_ne_zero (Nat.ne_zero_of_lt deep)
      have parent := inductionHypothesis linked.2.2 parentSaved deeper deep
        (not_or.mpr (noNull _ parentSaved.mem))
      rw [insertBitcoinBlockIndex, if_neg proper]
      simp only [saved _ le_rfl, header_connectedIndex linked,
        hashPrev_connectedIndex linked, Lineage.pprev?, Option.elim_some,
        parent]
      rfl

/-- There are at least as many records as headers on the way to a stored one. -/
theorem height_lt_records
    (distinct : DistinctHashes env pindex) (saved : Saved env db pindex) :
    pindex.height < db.blockIndexes.entries.length := by
  let hashAt : Nat → Uint256 :=
    fun nHeight =>
      (pindex.at? nHeight).elim 0 fun index => env.getHash index.item
  have stored :
      ∀ nHeight ∈ Finset.range (pindex.height + 1),
        hashAt nHeight ∈ db.blockIndexes.keys.toFinset := by
    intro nHeight inside
    rcases Lineage.at?_isSome (Finset.mem_range_succ_iff.mp inside) with
      ⟨ancestor, found⟩
    rw [List.mem_toFinset]
    simp only [hashAt, found, Option.elim_some]
    exact (saved.mono (Lineage.le_of_at? found)).mem
  have injective :
      Set.InjOn hashAt (Finset.range (pindex.height + 1)) := by
    intro first firstInside second secondInside same
    rcases Lineage.at?_isSome (Finset.mem_range_succ_iff.mp firstInside) with
      ⟨firstIndex, foundFirst⟩
    rcases Lineage.at?_isSome (Finset.mem_range_succ_iff.mp secondInside) with
      ⟨secondIndex, foundSecond⟩
    simp only [hashAt, foundFirst, foundSecond, Option.elim_some] at same
    have equal := distinct firstIndex (Lineage.le_of_at? foundFirst)
      secondIndex (Lineage.le_of_at? foundSecond) same
    rw [← (Lineage.at?_height foundFirst).1, equal,
      (Lineage.at?_height foundSecond).1]
  calc
    pindex.height < (Finset.range (pindex.height + 1)).card := by simp
    _ ≤ db.blockIndexes.keys.toFinset.card :=
      Finset.card_le_card_of_injOn hashAt stored injective
    _ ≤ db.blockIndexes.keys.length := List.toFinset_card_le _
    _ = db.blockIndexes.entries.length := List.length_map _

/-- A record is that of the known header whose hash it is stored under. -/
theorem record_of_stored
    (known : KnownHeaders env headers) (stored : Stored env headers db tip)
    {diskindex : CBitcoinDiskBlockIndex}
    (record : db.blockIndexes.lookup hash = some diskindex) :
    ∃ pindex, headers.lookup hash = some pindex ∧ Saved env db pindex ∧
      diskindex = connectedIndex env pindex ∧
        env.getHash diskindex.header = hash := by
  rcases stored.records hash (AList.lookup_isSome.mp (by rw [record]; rfl)) with
    ⟨pindex, found, saved⟩
  have isHash := known.keyed hash pindex found
  have same := saved pindex le_rfl
  rw [isHash, record, Option.some.injEq] at same
  refine ⟨pindex, found, saved, same, ?_⟩
  rw [same, header_connectedIndex (known.linked hash pindex found), isHash]

/-- A record holds the height of the index that is loaded from it. -/
theorem nHeight_of_stored
    (known : KnownHeaders env headers) (stored : Stored env headers db tip)
    {diskindex : CBitcoinDiskBlockIndex}
    (record : db.blockIndexes.lookup hash = some diskindex)
    (found : headers.lookup hash = some pindex) :
    diskindex.nHeight = env.nHeight pindex := by
  rcases record_of_stored known stored record with ⟨index, isKnown, -, rfl, -⟩
  rw [isKnown, Option.some.injEq] at found
  rw [found, nHeight_connectedIndex]

theorem loadRecord_of_stored
    (known : KnownHeaders env headers) (stored : Stored env headers db tip)
    (noNull : NoNull db) {diskindex : CBitcoinDiskBlockIndex}
    (record : db.blockIndexes.lookup hash = some diskindex) :
    ∃ pindex, headers.lookup hash = some pindex ∧
      ∀ loaded, loadRecord env db loaded diskindex =
        .ok (insertNew loaded hash pindex) := by
  rcases record_of_stored known stored record with
    ⟨pindex, found, saved, -, isHash⟩
  have pointer := insertBitcoinBlockIndex_of_saved
    (known.linked hash pindex found) saved noNull
    (height_lt_records (known.distinct found) saved)
  rw [known.keyed hash pindex found] at pointer
  refine ⟨pindex, found, ?_⟩
  intro loaded
  simp only [loadRecord, isHash, pointer]
  rfl

theorem mem_records {diskindex : CBitcoinDiskBlockIndex} :
    diskindex ∈ db.blockIndexes.entries.map (·.2) ↔
      ∃ hash, db.blockIndexes.lookup hash = some diskindex := by
  simp only [List.mem_map]
  constructor
  · rintro ⟨⟨hash, _⟩, member, rfl⟩
    exact ⟨hash, AList.mem_lookup_iff.mpr member⟩
  · rintro ⟨hash, record⟩
    exact ⟨⟨hash, diskindex⟩, AList.mem_lookup_iff.mp record, rfl⟩

theorem lookup_insertNew_within
    (within :
      ∀ hash pindex, loaded.lookup hash = some pindex →
        headers.lookup hash = some pindex)
    (found : headers.lookup hash = some pindex)
    (other : Uint256) (index : BitcoinIndex) :
    (insertNew loaded hash pindex).lookup other = some index ↔
      loaded.lookup other = some index ∨ other = hash ∧ index = pindex := by
  rw [lookup_insertNew]
  cases old : loaded.lookup other with
  | some stored =>
      rw [Option.some_or, Option.some.injEq]
      refine (or_iff_left_of_imp ?_).symm
      rintro ⟨rfl, rfl⟩
      have same := within other stored old
      rw [found, Option.some.injEq] at same
      exact same.symm
  | none =>
      rw [Option.none_or]
      split_ifs with same
      · simp [same, eq_comm]
      · simp [Ne.symm same]

/-- Loading some records adds the known headers of these records. -/
theorem loadRecords_of_stored
    (known : KnownHeaders env headers) (stored : Stored env headers db tip)
    (noNull : NoNull db) {records : List CBitcoinDiskBlockIndex}
    (ofDb :
      ∀ diskindex ∈ records,
        ∃ hash, db.blockIndexes.lookup hash = some diskindex)
    (within :
      ∀ hash pindex, loaded.lookup hash = some pindex →
        headers.lookup hash = some pindex) :
    ∃ result, records.foldlM (loadRecord env db) loaded = .ok result ∧
      ∀ hash pindex, result.lookup hash = some pindex ↔
        loaded.lookup hash = some pindex ∨
          headers.lookup hash = some pindex ∧
            ∃ diskindex ∈ records,
              db.blockIndexes.lookup hash = some diskindex := by
  induction records generalizing loaded with
  | nil => exact ⟨loaded, rfl, by simp⟩
  | cons diskindex rest inductionHypothesis =>
      rcases ofDb diskindex List.mem_cons_self with ⟨first, record⟩
      rcases loadRecord_of_stored known stored noNull record with
        ⟨index, found, step⟩
      have added := lookup_insertNew_within within found
      have nextWithin : ∀ hash pindex,
          (insertNew loaded first index).lookup hash = some pindex →
            headers.lookup hash = some pindex := by
        intro hash pindex isLoaded
        rcases (added hash pindex).mp isLoaded with old | ⟨rfl, rfl⟩
        · exact within hash pindex old
        · exact found
      rcases inductionHypothesis
          (fun other among => ofDb other (List.mem_cons_of_mem _ among))
          nextWithin with ⟨result, folded, lookups⟩
      refine ⟨result, ?_, ?_⟩
      · rw [List.foldlM_cons, step]
        exact folded
      · intro hash pindex
        rw [lookups, added, List.exists_mem_cons_iff]
        constructor
        · rintro ((old | ⟨rfl, rfl⟩) | ⟨isKnown, later⟩)
          · exact Or.inl old
          · exact Or.inr ⟨found, Or.inl record⟩
          · exact Or.inr ⟨isKnown, Or.inr later⟩
        · rintro (old | ⟨isKnown, here | later⟩)
          · exact Or.inl (Or.inl old)
          · rcases record_of_stored known stored record with ⟨_, _, _, _, name⟩
            rcases record_of_stored known stored here with ⟨_, _, _, _, other⟩
            rw [name] at other
            rw [← other, found, Option.some.injEq] at isKnown
            exact Or.inl (Or.inr ⟨other.symm, isKnown.symm⟩)
          · exact Or.inr ⟨isKnown, later⟩

/-- Loading gives the known headers that have a record. -/
theorem loadBlockIndexGuts_of_stored
    (known : KnownHeaders env headers) (stored : Stored env headers db tip)
    (noNull : NoNull db) :
    ∃ result, loadBlockIndexGuts env db = .ok result ∧
      ∀ hash pindex, result.lookup hash = some pindex ↔
        headers.lookup hash = some pindex ∧ hash ∈ db.blockIndexes := by
  have within : ∀ hash pindex, (∅ : HeaderMap).lookup hash = some pindex →
      headers.lookup hash = some pindex := by
    intro hash pindex impossible
    rw [AList.lookup_empty] at impossible
    cases impossible
  rcases loadRecords_of_stored known stored noNull
      (fun diskindex among => mem_records.mp among) within with
    ⟨result, folded, lookups⟩
  refine ⟨result, folded, ?_⟩
  intro hash pindex
  rw [lookups, AList.lookup_empty, ← AList.lookup_isSome,
    Option.isSome_iff_exists]
  simp only [reduceCtorEq, false_or]
  refine and_congr_right fun _ => ?_
  constructor
  · rintro ⟨diskindex, -, record⟩
    exact ⟨diskindex, record⟩
  · rintro ⟨diskindex, record⟩
    exact ⟨diskindex, mem_records.mpr ⟨hash, record⟩, record⟩

theorem exists_step_of_foldlM
    {σ κ ε : Type} {step : σ → κ → Except ε σ} {values : List κ}
    {start final : σ} (folded : values.foldlM step start = .ok final)
    {value : κ} (member : value ∈ values) :
    ∃ before after, step before value = .ok after := by
  induction values generalizing start with
  | nil => cases member
  | cons first rest inductionHypothesis =>
      rw [List.foldlM_cons, bind_eq_ok] at folded
      rcases folded with ⟨next, stepped, later⟩
      rcases List.mem_cons.mp member with rfl | inRest
      · exact ⟨start, next, stepped⟩
      · exact inductionHypothesis later inRest

/-- A record with one of these hashes is a null pointer while it is loaded. -/
theorem noNull_of_loaded
    (known : KnownHeaders env headers) (stored : Stored env headers db tip)
    (isLoaded : loadBlockIndexGuts env db = .ok loaded) : NoNull db := by
  intro hash member
  rcases Option.isSome_iff_exists.mp (AList.lookup_isSome.mpr member) with
    ⟨diskindex, record⟩
  rcases record_of_stored known stored record with ⟨-, -, -, -, name⟩
  rcases exists_step_of_foldlM isLoaded (mem_records.mpr ⟨hash, record⟩) with
    ⟨before, after, step⟩
  rw [← not_or]
  intro null
  simp only [loadRecord, name, insertBitcoinBlockIndex_null null] at step
  cases step

/-- The known headers of a database are loaded as a tree. -/
theorem knownHeaders_loaded
    (known : KnownHeaders env headers) (stored : Stored env headers db tip)
    (lookups :
      ∀ hash pindex, loaded.lookup hash = some pindex ↔
        headers.lookup hash = some pindex ∧ hash ∈ db.blockIndexes)
    (tipFound : headers.lookup hash = some tip) :
    KnownHeaders env loaded where
  tree := by
    constructor
    · have rooted := root_le_of_linked (known.linked hash tip tipFound)
      have isStart :=
        (linked_of_le (known.linked hash tip tipFound) rooted).2
      refine ⟨.root firstBlock, (lookups _ _).mpr ?_⟩
      rw [← isStart]
      exact ⟨known.ancestors hash tip tipFound _ rooted,
        (stored.tipSaved.mono rooted).mem⟩
    · intro other pindex found
      exact known.tree.sound other pindex ((lookups other pindex).mp found).1
  keyed := fun other pindex found =>
    known.keyed other pindex ((lookups other pindex).mp found).1
  linked := fun other pindex found =>
    known.linked other pindex ((lookups other pindex).mp found).1
  ancestors := by
    intro other pindex found ancestor below
    rcases (lookups other pindex).mp found with ⟨isKnown, member⟩
    rcases stored.records other member with ⟨index, isIndex, saved⟩
    rw [isKnown, Option.some.injEq] at isIndex
    rw [← isIndex] at saved
    exact (lookups _ _).mpr
      ⟨known.ancestors other pindex isKnown ancestor below,
        (saved.mono below).mem⟩

/-- The database belongs to the headers that are loaded from it. -/
theorem stored_loaded
    (stored : Stored env headers db tip)
    (lookups :
      ∀ hash pindex, loaded.lookup hash = some pindex ↔
        headers.lookup hash = some pindex ∧ hash ∈ db.blockIndexes) :
    Stored env loaded db tip where
  records := by
    intro hash member
    rcases stored.records hash member with ⟨pindex, found, saved⟩
    exact ⟨pindex, (lookups hash pindex).mpr ⟨found, member⟩, saved⟩
  tipSaved := stored.tipSaved
  best := stored.best

end DSValue.Bitcoin.StoredHeaders
