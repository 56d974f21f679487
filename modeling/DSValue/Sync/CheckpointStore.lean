import DSValue.Sync.SyncData
import Mathlib.Data.List.Induction

/-!
# The store of the checkpoints

`WriteCheckpoint` stores a checkpoint under the pair of the type and the
height, and `ExistCheckpoint` asks for the height alone.  It never finds one,
so a later message for a height replaces the record in the database, while the
map in memory keeps the first hash until the next restart.
-/

namespace DSValue.Sync.CheckpointStore

open DSValue.Lib.Encoding
open DSValue.Lib.Stream
open DSValue.Lib.KeepFirst
open DSValue.Core.Serialize
open DSValue.Core.Deserialize
open DSValue.Sync.SyncData

variable {χ : Type} {db : Db} {data : CSyncData} {point : CSyncCheckPoint}

/-! ## Records -/

/-- The hash that a record stores. -/
def hashOf (data : CSyncData) : Option Uint256 :=
  (setData data).toOption.map CSyncCheckPoint.m_hashCheckpoint

/-- The hash in the database for a height. -/
def storedHash (db : Db) (height : Int32) : Option Uint256 :=
  (readCheckpoint db height).bind hashOf

/-- Every record is a lottery key or a checkpoint under its own height. -/
def WellFormed (db : Db) : Prop :=
  ∀ key data, db.lookup key = some data →
    (∃ nId, key = pairKey lotteryType nId) ∨
      ∃ point, setData data = .ok point ∧
        key = pairKey checkpointType point.m_height

theorem pairKey_inj
    {firstType secondType : UInt8} {first second : Int32} :
    pairKey firstType first = pairKey secondType second ↔
      firstType = secondType ∧ first = second := by
  rw [pairKey, pairKey, List.cons.injEq]
  exact and_congr_right fun _ =>
    selfDelimiting_writeInt32.injective.eq_iff

theorem length_pairKey (chType : UInt8) (n : Int32) :
    (pairKey chType n).length = 5 := by
  simp [pairKey, writeInt32]

theorem length_writeInt32 (n : Int32) : (writeInt32 n).length = 4 := by
  simp [writeInt32]

/-- A height alone is no key of the database. -/
theorem existCheckpoint_eq_false (formed : WellFormed db) (height : Int32) :
    existCheckpoint db height = false := by
  cases found : db.lookup (writeInt32 height) with
  | none => simp [existCheckpoint, found]
  | some data =>
      have short := length_writeInt32 height
      rcases formed _ _ found with ⟨nId, isKey⟩ | ⟨point, -, isKey⟩
      · rw [isKey, length_pairKey] at short
        cases short
      · rw [isKey, length_pairKey] at short
        cases short

theorem wellFormed_empty : WellFormed ∅ := by
  intro key data found
  cases found

theorem WellFormed.writeCheckpoint
    (formed : WellFormed db) (decoded : setData data = .ok point) :
    WellFormed (writeCheckpoint db point.m_height data) := by
  intro key stored found
  by_cases same : key = pairKey checkpointType point.m_height
  · rw [same, SyncData.writeCheckpoint, AList.lookup_insert] at found
    cases found
    exact Or.inr ⟨point, decoded, same⟩
  · rw [SyncData.writeCheckpoint, AList.lookup_insert_ne same] at found
    exact formed key stored found

theorem WellFormed.writeLotteryKey
    (formed : WellFormed db) (nId : Int32) (data : CSyncData) :
    WellFormed (writeLotteryKey db nId data) := by
  intro key stored found
  by_cases same : key = pairKey lotteryType nId
  · exact Or.inl ⟨nId, same⟩
  · rw [SyncData.writeLotteryKey, AList.lookup_insert_ne same] at found
    exact formed key stored found

theorem storedHash_writeCheckpoint
    (decoded : setData data = .ok point) (height : Int32) :
    storedHash (writeCheckpoint db point.m_height data) height =
      if point.m_height = height then some point.m_hashCheckpoint
      else storedHash db height := by
  split_ifs with same
  · rw [← same, storedHash, readCheckpoint, SyncData.writeCheckpoint,
      AList.lookup_insert, Option.bind_some, hashOf, decoded]
    rfl
  · have other :
        pairKey checkpointType height ≠
          pairKey checkpointType point.m_height := by
      intro equal
      exact same (pairKey_inj.mp equal).2.symm
    rw [storedHash, readCheckpoint, SyncData.writeCheckpoint,
      AList.lookup_insert_ne other]
    rfl

theorem storedHash_writeLotteryKey
    (nId height : Int32) (data : CSyncData) :
    storedHash (writeLotteryKey db nId data) height = storedHash db height := by
  have other :
      pairKey checkpointType height ≠ pairKey lotteryType nId := by
    intro equal
    exact absurd (pairKey_inj.mp equal).1 (by decide)
  rw [storedHash, readCheckpoint, SyncData.writeLotteryKey,
    AList.lookup_insert_ne other]
  rfl

/-! ## Loading -/

theorem decodeRecord_pairKey (decoded : setData data = .ok point) :
    decodeRecord (pairKey checkpointType point.m_height) data =
      .ok (point.m_height, point.m_hashCheckpoint) := by
  rw [decodeRecord, pairKey, List.drop_one, List.tail_cons,
    (reads_readInt32 point.m_height).done, decoded]
  rfl

/-- Loading looks a height up in the map first and then among the records. -/
theorem loadRecords_spec
    {records : List (Σ _ : List UInt8, CSyncData)}
    (each :
      ∀ record ∈ records, ∃ point, setData record.2 = .ok point ∧
        record.1 = pairKey checkpointType point.m_height)
    (values : MapCheckpoints) (height : Int32) :
    (loadRecords records values).1.lookup height =
      (values.lookup height).or
        ((records.dlookup (pairKey checkpointType height)).bind hashOf) := by
  induction records generalizing values with
  | nil => rw [loadRecords, List.dlookup_nil, Option.bind_none, Option.or_none]
  | cons record records inductionHypothesis =>
      rcases record with ⟨key, data⟩
      obtain ⟨point, decoded, rfl⟩ := each ⟨key, data⟩ List.mem_cons_self
      have later :=
        inductionHypothesis fun other member =>
          each other (List.mem_cons_of_mem _ member)
      rw [loadRecords, decodeRecord_pairKey decoded]
      dsimp only
      rw [later, lookup_insertNew, Option.or_assoc]
      congr 1
      split_ifs with same
      · rw [same, List.dlookup_cons_eq, Option.bind_some, hashOf, decoded,
          Option.some_or]
        rfl
      · have other :
            pairKey checkpointType height ≠
              pairKey checkpointType point.m_height := by
          intro equal
          exact same (pairKey_inj.mp equal).2.symm
        rw [List.dlookup_cons_ne _ _ other, Option.none_or]

theorem dlookup_filter
    {records : List (Σ _ : List UInt8, CSyncData)} {key : List UInt8}
    (keeps : List UInt8 → Bool) (kept : keeps key = true) :
    (records.filter fun record => keeps record.1).dlookup key =
      records.dlookup key := by
  induction records with
  | nil => rfl
  | cons record records inductionHypothesis =>
      rcases record with ⟨other, data⟩
      by_cases same : key = other
      · rw [← same, List.filter_cons, if_pos kept, List.dlookup_cons_eq,
          List.dlookup_cons_eq]
      · rw [List.dlookup_cons_ne _ _ same, List.filter_cons]
        split_ifs
        · rw [List.dlookup_cons_ne _ _ same, inductionHypothesis]
        · exact inductionHypothesis

theorem loadCheckPoint_spec
    (formed : WellFormed db) (values : MapCheckpoints) (height : Int32) :
    (loadCheckPoint db values).1.lookup height =
      (values.lookup height).or (storedHash db height) := by
  rw [loadCheckPoint, loadRecords_spec]
  · rw [dlookup_filter (fun key => key.head? = some checkpointType) rfl]
    rfl
  · rintro ⟨key, data⟩ member
    rcases List.mem_filter.mp member with ⟨stored, isCheckpoint⟩
    rcases formed key data (AList.mem_lookup_iff.mpr stored) with
      ⟨nId, rfl⟩ | isPoint
    · exact absurd isCheckpoint (by simp [pairKey, lotteryType, checkpointType])
    · exact isPoint

/-! ## Runs -/

/-- The first hash of a list of checkpoints for a height. -/
def firstHash (points : List CSyncCheckPoint) (height : Int32) :
    Option Uint256 :=
  (points.find? fun point => point.m_height = height).map
    CSyncCheckPoint.m_hashCheckpoint

/-- The last hash of a list of checkpoints for a height. -/
def lastHash (points : List CSyncCheckPoint) (height : Int32) :
    Option Uint256 :=
  firstHash points.reverse height

theorem firstHash_append
    (first second : List CSyncCheckPoint) (height : Int32) :
    firstHash (first ++ second) height =
      (firstHash first height).or (firstHash second height) := by
  rw [firstHash, List.find?_append, Option.map_or]
  rfl

theorem lastHash_append
    (first second : List CSyncCheckPoint) (height : Int32) :
    lastHash (first ++ second) height =
      (lastHash second height).or (lastHash first height) := by
  rw [lastHash, List.reverse_append, firstHash_append]
  rfl

theorem firstHash_singleton (point : CSyncCheckPoint) (height : Int32) :
    firstHash [point] height =
      if point.m_height = height then some point.m_hashCheckpoint
      else none := by
  rw [firstHash, List.find?_singleton]
  split_ifs <;> simp_all

/-- What a "checkpoint" message does to both stores. -/
theorem processCheckpoint_spec
    (checkSignature : CSyncData → Bool) (actions : ChainActions χ)
    (vdata : List CSyncData) (state : SyncState χ)
    (formed : WellFormed state.db) :
    WellFormed (processCheckpoint checkSignature actions vdata state).1.db ∧
      ∀ height,
        storedHash
            (processCheckpoint checkSignature actions vdata state).1.db
            height =
          (lastHash (processCheckpoint checkSignature actions vdata state).2
            height).or (storedHash state.db height) ∧
        (processCheckpoint checkSignature actions vdata
            state).1.mapCheckpoints.lookup height =
          (state.mapCheckpoints.lookup height).or
            (firstHash
              (processCheckpoint checkSignature actions vdata state).2
              height) := by
  induction vdata generalizing state with
  | nil => exact ⟨formed, fun height => ⟨rfl, (Option.or_none).symm⟩⟩
  | cons data rest inductionHypothesis =>
      rw [processCheckpoint]
      split_ifs with signed
      · cases decoded : setData data with
        | error failure => exact ⟨formed, fun height => ⟨rfl, Option.or_none.symm⟩⟩
        | ok point =>
            dsimp only
            rw [if_neg (by simp [existCheckpoint_eq_false formed])]
            rcases inductionHypothesis
                (acceptCheckpoint actions state data point)
                (formed.writeCheckpoint decoded) with ⟨kept, stores⟩
            refine ⟨kept, fun height => ?_⟩
            rcases stores height with ⟨stored, inMemory⟩
            constructor
            · rw [stored, ← List.singleton_append, lastHash_append,
                Option.or_assoc]
              congr 1
              rw [acceptCheckpoint, storedHash_writeCheckpoint decoded,
                lastHash, List.reverse_singleton, firstHash_singleton]
              split_ifs
              · rw [Option.some_or]
              · rw [Option.none_or]
            · rw [inMemory, ← List.singleton_append, firstHash_append,
                ← Option.or_assoc]
              congr 1
              rw [acceptCheckpoint, lookup_insertNew, firstHash_singleton]
      · exact inductionHypothesis state formed

theorem processKeys_spec
    (checkSignature : CSyncData → Bool) (vdata : List CSyncData)
    (formed : WellFormed db) :
    WellFormed (processKeys checkSignature vdata db).1 ∧
      ∀ height,
        storedHash (processKeys checkSignature vdata db).1 height =
          storedHash db height := by
  induction vdata generalizing db with
  | nil => exact ⟨formed, fun _ => rfl⟩
  | cons data rest inductionHypothesis =>
      rw [processKeys]
      split_ifs
      · cases keyOfData data with
        | error failure => exact ⟨formed, fun _ => rfl⟩
        | ok key =>
            rcases inductionHypothesis
                (formed.writeLotteryKey key.Index data) with ⟨kept, stored⟩
            refine ⟨kept, fun height => ?_⟩
            exact (stored height).trans
              (storedHash_writeLotteryKey key.Index height data)
      · exact inductionHypothesis formed

/-- The database holds the last accepted hash of every height. -/
structure Tracks (run : Run χ) : Prop where
  formed : WellFormed run.state.db
  stored :
    ∀ height, storedHash run.state.db height = lastHash run.accepted height

section Runs

variable (checkSignature : CSyncData → Bool) (actions : ChainActions χ)
  (builtin : MapCheckpoints) (chain : χ)

theorem tracks_start : Tracks (Run.start builtin chain) :=
  ⟨wellFormed_empty, fun _ => rfl⟩

theorem Tracks.step
    {run : Run χ} (tracks : Tracks run) (step : SyncStep) :
    Tracks (run.step checkSignature actions builtin step) := by
  cases step with
  | checkpoint vdata =>
      rcases processCheckpoint_spec checkSignature actions vdata run.state
          tracks.formed with ⟨kept, stores⟩
      refine ⟨kept, fun height => ?_⟩
      rw [Run.step, lastHash_append, ← tracks.stored height]
      exact (stores height).1
  | lotterykey vdata =>
      rcases processKeys_spec checkSignature vdata tracks.formed with
        ⟨kept, stored⟩
      exact ⟨kept, fun height =>
        (stored height).trans (tracks.stored height)⟩
  | restart => exact ⟨tracks.formed, tracks.stored⟩

theorem tracks_after (steps : List SyncStep) :
    Tracks (Run.after checkSignature actions builtin chain steps) := by
  induction steps using List.reverseRecOn with
  | nil => exact tracks_start builtin chain
  | append_singleton steps step inductionHypothesis =>
      rw [Run.after, List.foldl_concat]
      exact inductionHypothesis.step checkSignature actions builtin step

theorem accepted_step (run : Run χ) (step : SyncStep) :
    run.accepted <+:
      (run.step checkSignature actions builtin step).accepted := by
  cases step with
  | checkpoint vdata => exact List.prefix_append _ _
  | lotterykey vdata => exact List.prefix_rfl
  | restart => exact List.prefix_rfl

/-- Accepted checkpoints stay accepted. -/
theorem accepted_after
    {earlier steps : List SyncStep} (before : earlier <+: steps) :
    (Run.after checkSignature actions builtin chain earlier).accepted <+:
      (Run.after checkSignature actions builtin chain steps).accepted := by
  rcases before with ⟨later, rfl⟩
  induction later using List.reverseRecOn with
  | nil => simp only [List.append_nil, List.prefix_rfl]
  | append_singleton later step inductionHypothesis =>
      refine inductionHypothesis.trans ?_
      rw [← List.append_assoc]
      simp only [Run.after, List.foldl_concat]
      exact accepted_step checkSignature actions builtin _ step

end Runs

/-! ## Consistency -/

/-- A checkpoint for the height has been written. -/
def Synced (run : Run χ) (height : Int32) : Prop :=
  ∃ point ∈ run.accepted, point.m_height = height

/-- `ExistCheckpoint` knows the written heights. -/
def ExistExact (run : Run χ) : Prop :=
  ∀ height,
    existCheckpoint run.state.db height = true ↔ Synced run height

/-- The map in memory and the map after a restart agree. -/
def MapsAgree (builtin : MapCheckpoints) (run : Run χ) : Prop :=
  ∀ height, Synced run height →
    run.state.mapCheckpoints.lookup height =
      (loadCheckPoint run.state.db builtin).1.lookup height

/-- The hash for a height that came first. -/
def firstAccepted
    (builtin : MapCheckpoints) (run : Run χ) (height : Int32) :
    Option Uint256 :=
  (builtin.lookup height).or (firstHash run.accepted height)

/-- The hash for a height that came last, behind those of the network. -/
def lastAccepted
    (builtin : MapCheckpoints) (run : Run χ) (height : Int32) :
    Option Uint256 :=
  (builtin.lookup height).or (lastHash run.accepted height)

/-- The first hash is in force, now and after a restart. -/
def FirstKept (builtin : MapCheckpoints) (run : Run χ) : Prop :=
  ∀ height, Synced run height →
    run.state.mapCheckpoints.lookup height =
        firstAccepted builtin run height ∧
      (loadCheckPoint run.state.db builtin).1.lookup height =
        firstAccepted builtin run height

section Consistency

variable (checkSignature : CSyncData → Bool) (actions : ChainActions χ)
  (builtin : MapCheckpoints) (chain : χ)

theorem Tracks.loaded
    {run : Run χ} (tracks : Tracks run) (height : Int32) :
    (loadCheckPoint run.state.db builtin).1.lookup height =
      lastAccepted builtin run height := by
  rw [loadCheckPoint_spec tracks.formed, tracks.stored, lastAccepted]

theorem firstHash_eq_none_of_not_synced
    {run : Run χ} {height : Int32} (never : ¬ Synced run height) :
    firstHash run.accepted height = none ∧
      lastHash run.accepted height = none := by
  have absent :
      ∀ point ∈ run.accepted, ¬ decide (point.m_height = height) = true := by
    intro point member isHeight
    exact never ⟨point, member, of_decide_eq_true isHeight⟩
  constructor
  · rw [firstHash, List.find?_eq_none.mpr absent, Option.map_none]
  · rw [lastHash, firstHash, List.find?_eq_none.mpr, Option.map_none]
    intro point member
    exact absent point (List.mem_reverse.mp member)

/-- Without conflicting messages the map in memory keeps the first hashes. -/
theorem memory_of_agreeing
    (steps : List SyncStep)
    (agreeing :
      ∀ earlier, earlier <+: steps → ∀ height,
        lastAccepted builtin
            (Run.after checkSignature actions builtin chain earlier) height =
          firstAccepted builtin
            (Run.after checkSignature actions builtin chain earlier) height)
    (height : Int32) :
    (Run.after checkSignature actions builtin chain
        steps).state.mapCheckpoints.lookup height =
      firstAccepted builtin
        (Run.after checkSignature actions builtin chain steps) height := by
  induction steps using List.reverseRecOn with
  | nil =>
      exact (Option.or_none).symm
  | append_singleton steps step inductionHypothesis =>
      have earlierSteps : steps <+: steps ++ [step] := List.prefix_append _ _
      have before :=
        inductionHypothesis fun earlier isEarlier =>
          agreeing earlier (isEarlier.trans earlierSteps)
      have tracks := tracks_after checkSignature actions builtin chain steps
      have agree := agreeing steps earlierSteps height
      rw [Run.after, List.foldl_concat, ← Run.after]
      cases step with
      | checkpoint vdata =>
          have stores :=
            (processCheckpoint_spec checkSignature actions vdata
              (Run.after checkSignature actions builtin chain steps).state
              tracks.formed).2 height
          refine stores.2.trans ?_
          rw [before, firstAccepted, firstAccepted, Run.step, firstHash_append,
            Option.or_assoc]
      | lotterykey vdata => exact before
      | restart => exact (tracks.loaded builtin height).trans agree

end Consistency

/-! ## Two messages for one height -/

/-- The checkpoint of the main network. -/
def mainCheckpoints : MapCheckpoints :=
  insertNew ∅ 0
    0x00a81fc969b4dcd90c9e490a8c6e861b55af2ae4ddb8bec9d2c94dcabf15dc81

/-- Actions on a chain that is not looked at. -/
def idleActions : ChainActions Unit where
  checkActiveChain := fun _ _ _ chain => chain
  activateBestChain := fun _ chain => chain
  reload := fun chain => chain

/-- A signed checkpoint for height 5. -/
def signedPoint (hash : Uint256) : CSyncData :=
  ⟨(CSyncCheckPoint.mk 1 5 hash).serialize, []⟩

/-- Two checkpoints for height 5 are accepted, then the node is restarted. -/
def replacedRun : Run Unit :=
  Run.after (fun _ => true) idleActions mainCheckpoints ()
    [.checkpoint [signedPoint 1], .checkpoint [signedPoint 2], .restart]

end DSValue.Sync.CheckpointStore
