import DSValue.Sync.CheckpointStore

/-!
# Data signed for one purpose

A signed checkpoint decodes as a lottery key when the low byte of its height
is at most one, since that byte takes the place of the number of keys.  A
signed list of two or more lottery keys is long enough to decode as a
checkpoint.  Data of neither kind are what they were signed for, in every
state that the handlers reach.
-/

namespace DSValue.Sync.Separation

open DSValue.Lib.Encoding
open DSValue.Lib.Stream
open DSValue.Lib.KeepFirst
open DSValue.Core.Serialize
open DSValue.Core.Deserialize
open DSValue.Sync.SyncData
open DSValue.Sync.CheckpointStore

variable {χ : Type} {data : CSyncData}

/-! ## Decoding -/

theorem fixedWidth_readCSyncCheckPoint :
    FixedWidth readCSyncCheckPoint 40 := by
  refine fixedWidth_readInt32.bind 36 fun m_version => ?_
  refine fixedWidth_readInt32.bind 32 fun m_height => ?_
  exact fixedWidth_readUint256.map _

/-- Forty bytes are a checkpoint. -/
theorem setData_eq_ok_iff :
    (∃ point, setData data = .ok point) ↔ 40 ≤ data.m_vchMsg.length := by
  constructor
  · rintro ⟨point, decoded⟩
    by_contra short
    rw [setData, fixedWidth_readCSyncCheckPoint.short _ (not_le.mp short)]
      at decoded
    cases decoded
  · intro enough
    rcases fixedWidth_readCSyncCheckPoint.enough _ enough with ⟨point, taken⟩
    exact ⟨point, by rw [setData, taken]; rfl⟩

/-- The byte in the place of the number of keys. -/
def lowByte (height : Int32) : Nat :=
  height.toBitVec.toNat % 256

theorem readWideSize_bound
    {width bound size : Nat} {stream rest : List UInt8}
    (read : readWideSize width bound stream = .ok (size, rest)) :
    bound ≤ size ∧ rest.length ≤ stream.length := by
  rcases readWideSize_eq_ok.mp read with ⟨canonical, -, rfl⟩
  exact ⟨canonical, by simp⟩

/-- A size in a longer form does not fit into a signed checkpoint. -/
theorem readMany_readWideSize_ne_ok
    {width bound : Nat} {stream rest : List UInt8} {values : List Uint256}
    (large : 253 ≤ bound) (short : stream.length ≤ 40) (size : Nat)
    (middle : List UInt8)
    (read : readWideSize width bound stream = .ok (size, middle)) :
    readMany readUint256 size middle ≠ .ok (values, rest) := by
  rcases readWideSize_bound read with ⟨many, shorter⟩
  rw [(fixedWidth_readUint256.many size).short middle (by omega)]
  intro equal
  cases equal

theorem length_checkpoint_tail (point : CSyncCheckPoint) :
    (littleEndian 3 (point.m_height.toBitVec.toNat / 256) ++
      writeUint256 point.m_hashCheckpoint).length = 35 := by
  simp [writeUint256]

/-- The keys that follow the low byte of a height. -/
theorem readVector_checkpoint_tail
    (point : CSyncCheckPoint) :
    (∃ result,
      readVector readUint256
          (writeInt32 point.m_height ++
            writeUint256 point.m_hashCheckpoint) = .ok result) ↔
      lowByte point.m_height ≤ 1 := by
  have byte : lowByte point.m_height < 256 ^ 1 :=
    Nat.mod_lt _ (by decide)
  have tailLength := length_checkpoint_tail point
  generalize tail :
    littleEndian 3 (point.m_height.toBitVec.toNat / 256) ++
      writeUint256 point.m_hashCheckpoint = stream at tailLength
  have split :
      writeInt32 point.m_height ++ writeUint256 point.m_hashCheckpoint =
        littleEndian 1 (lowByte point.m_height) ++ stream := by
    have low :
        littleEndian 1 (lowByte point.m_height) =
          [UInt8.ofNat (point.m_height.toBitVec.toNat % 256)] := by
      rw [littleEndian, littleEndian, lowByte, Nat.mod_mod]
    rw [low, ← tail]
    rfl
  have first := reads_readLittleEndian byte stream
  rw [split, readVector, readCompactSize]
  constructor
  · rintro ⟨⟨values, rest⟩, decoded⟩
    rcases reader_bind_eq_ok.mp decoded with ⟨size, after, sized, keys⟩
    rw [bind_of_ok first] at sized
    rcases reader_bind_eq_ok.mp sized with ⟨nSizeRet, middle, behind, checked⟩
    split_ifs at checked
    · cases checked
    cases checked
    rw [readSizeBehind] at behind
    split_ifs at behind with small two four
    · cases behind
      by_contra large
      rw [(fixedWidth_readUint256.many _).short stream (by omega)] at keys
      cases keys
    · exact absurd keys
        (readMany_readWideSize_ne_ok (by decide) (by omega) _ _ behind)
    · exact absurd keys
        (readMany_readWideSize_ne_ok (by decide) (by omega) _ _ behind)
    · exact absurd keys
        (readMany_readWideSize_ne_ok (by decide) (by omega) _ _ behind)
  · intro small
    rcases (fixedWidth_readUint256.many (lowByte point.m_height)).enough stream
        (by omega) with ⟨values, keys⟩
    have sized :
        readSizeBehind (lowByte point.m_height) stream =
          .ok (lowByte point.m_height, stream) := by
      rw [readSizeBehind, if_pos (by omega)]
      rfl
    have bounded : ¬ MAX_SIZE < lowByte point.m_height := by
      rw [MAX_SIZE]
      omega
    refine ⟨_, Eq.trans (bind_of_ok ?_) keys⟩
    rw [bind_of_ok first, bind_of_ok sized, if_neg bounded]
    rfl

/-- A checkpoint decodes as a lottery key when its height starts so. -/
theorem keyOfData_checkpoint_iff (point : CSyncCheckPoint) (sig : List UInt8) :
    (∃ key, keyOfData ⟨point.serialize, sig⟩ = .ok key) ↔
      lowByte point.m_height ≤ 1 := by
  rw [← readVector_checkpoint_tail, keyOfData, CSyncCheckPoint.serialize,
    readCLottoFileKey, bind_of_ok (reads_readInt32 _ _)]
  constructor
  · rintro ⟨key, decoded⟩
    cases keys : readVector readUint256
        (writeInt32 point.m_height ++ writeUint256 point.m_hashCheckpoint) with
    | error failure =>
        rw [bind_of_error keys] at decoded
        cases decoded
    | ok result => exact ⟨result, rfl⟩
  · rintro ⟨⟨keys, rest⟩, decoded⟩
    exact ⟨⟨point.m_version, keys⟩, by rw [bind_of_ok decoded]; rfl⟩

theorem length_serialize_key (key : CLottoFileKey) :
    key.serialize.length =
      4 + (writeCompactSize (UInt64.ofNat key.Key.length)).length +
        32 * key.Key.length := by
  have keys : (key.Key.flatMap writeUint256).length = 32 * key.Key.length := by
    induction key.Key with
    | nil => rfl
    | cons head tail inductionHypothesis =>
        rw [List.flatMap_cons, List.length_append, inductionHypothesis,
          List.length_cons, writeUint256, length_littleEndian]
        omega
  rw [CLottoFileKey.serialize, writeVector, List.length_append,
    List.length_append, keys, length_writeInt32]
  omega

theorem writeCompactSize_ne_nil (nSize : UInt64) :
    writeCompactSize nSize ≠ [] := by
  rw [writeCompactSize_eq_cons]
  split_ifs <;> exact List.cons_ne_nil _ _

/-- A list of keys decodes as a checkpoint unless it is a single key. -/
theorem setData_key_iff
    {key : CLottoFileKey} (sig : List UInt8) (some : key.Key ≠ []) :
    (∃ point, setData ⟨key.serialize, sig⟩ = .ok point) ↔
      key.Key.length ≠ 1 := by
  rw [setData_eq_ok_iff, length_serialize_key]
  have positive := List.length_pos_iff.mpr some
  have marker :=
    List.length_pos_iff.mpr
      (writeCompactSize_ne_nil (UInt64.ofNat key.Key.length))
  constructor
  · intro enough single
    rw [single] at enough
    exact absurd enough (by decide)
  · intro several
    omega

/-! ## The handlers -/

section Handlers

variable (checkSignature : CSyncData → Bool) (actions : ChainActions χ)

theorem processLotteryKey_unchanged_iff
    [Inhabited χ] (signed : checkSignature data = true) :
    (∀ state : SyncState χ,
      (processLotteryKey checkSignature actions [data] state).db = state.db) ↔
      ¬ ∃ key, keyOfData data = .ok key := by
  constructor
  · rintro unchanged ⟨key, decoded⟩
    have written := unchanged ⟨∅, ∅, default⟩
    rw [processLotteryKey, processKeys, if_pos signed, decoded] at written
    have found :
        (writeLotteryKey ∅ key.Index data).lookup
          (pairKey lotteryType key.Index) = some data :=
      AList.lookup_insert _
    rw [show writeLotteryKey ∅ key.Index data = ∅ from written] at found
    cases found
  · intro undecodable state
    rw [processLotteryKey, processKeys, if_pos signed]
    cases decoded : keyOfData data with
    | error failure => rfl
    | ok key => exact absurd ⟨key, decoded⟩ undecodable

theorem processCheckpoint_unchanged_iff
    [Inhabited χ] (signed : checkSignature data = true) :
    (∀ state : SyncState χ,
      (processCheckpoint checkSignature actions [data] state).1 = state) ↔
      ¬ ∃ point, setData data = .ok point := by
  constructor
  · rintro unchanged ⟨point, decoded⟩
    have written := unchanged ⟨∅, ∅, default⟩
    rw [processCheckpoint, if_pos signed, decoded] at written
    have found :
        (writeCheckpoint ∅ point.m_height data).lookup
          (pairKey checkpointType point.m_height) = some data :=
      AList.lookup_insert _
    rw [show writeCheckpoint ∅ point.m_height data = ∅ from
      congrArg SyncState.db written] at found
    cases found
  · intro undecodable state
    rw [processCheckpoint, if_pos signed]
    cases decoded : setData data with
    | error failure => rfl
    | ok point => exact absurd ⟨point, decoded⟩ undecodable

end Handlers

/-! ## Runs -/

/-- Every record is signed and decodes as what it is stored as. -/
structure Records (checkSignature : CSyncData → Bool) (db : Db) : Prop where
  keys :
    ∀ nId data, readLotteryKey db nId = some data →
      checkSignature data = true ∧
        ∃ key, keyOfData data = .ok key ∧ key.Index = nId
  points :
    ∀ height data, readCheckpoint db height = some data →
      checkSignature data = true ∧
        ∃ point, setData data = .ok point ∧ point.m_height = height

/-- A checkpoint in memory comes from the network or from signed data. -/
def InForce
    (checkSignature : CSyncData → Bool) (builtin : MapCheckpoints)
    (checkpoints : MapCheckpoints) : Prop :=
  ∀ height hash, checkpoints.lookup height = some hash →
    builtin.lookup height = some hash ∨
      ∃ data point, checkSignature data = true ∧
        setData data = .ok point ∧ point.m_height = height ∧
        point.m_hashCheckpoint = hash

section Runs

variable {checkSignature : CSyncData → Bool} {builtin : MapCheckpoints}
  {db : Db} {checkpoints : MapCheckpoints}

theorem Records.writeLotteryKey
    {key : CLottoFileKey} (records : Records checkSignature db)
    (signed : checkSignature data = true)
    (decoded : keyOfData data = .ok key) :
    Records checkSignature (writeLotteryKey db key.Index data) := by
  constructor
  · intro nId stored found
    by_cases same : nId = key.Index
    · rw [same, readLotteryKey, SyncData.writeLotteryKey,
        AList.lookup_insert] at found
      cases found
      exact ⟨signed, key, decoded, same.symm⟩
    · have other : pairKey lotteryType nId ≠ pairKey lotteryType key.Index := by
        intro equal
        exact same (pairKey_inj.mp equal).2
      rw [readLotteryKey, SyncData.writeLotteryKey,
        AList.lookup_insert_ne other] at found
      exact records.keys nId stored found
  · intro height stored found
    have other :
        pairKey checkpointType height ≠ pairKey lotteryType key.Index := by
      intro equal
      exact absurd (pairKey_inj.mp equal).1 (by decide)
    rw [readCheckpoint, SyncData.writeLotteryKey,
      AList.lookup_insert_ne other] at found
    exact records.points height stored found

theorem Records.writeCheckpoint
    {point : CSyncCheckPoint} (records : Records checkSignature db)
    (signed : checkSignature data = true)
    (decoded : setData data = .ok point) :
    Records checkSignature (writeCheckpoint db point.m_height data) := by
  constructor
  · intro nId stored found
    have other :
        pairKey lotteryType nId ≠ pairKey checkpointType point.m_height := by
      intro equal
      exact absurd (pairKey_inj.mp equal).1 (by decide)
    rw [readLotteryKey, SyncData.writeCheckpoint,
      AList.lookup_insert_ne other] at found
    exact records.keys nId stored found
  · intro height stored found
    by_cases same : height = point.m_height
    · rw [same, readCheckpoint, SyncData.writeCheckpoint,
        AList.lookup_insert] at found
      cases found
      exact ⟨signed, point, decoded, same.symm⟩
    · have other :
          pairKey checkpointType height ≠
            pairKey checkpointType point.m_height := by
        intro equal
        exact same (pairKey_inj.mp equal).2
      rw [readCheckpoint, SyncData.writeCheckpoint,
        AList.lookup_insert_ne other] at found
      exact records.points height stored found

theorem InForce.insertNew
    {point : CSyncCheckPoint}
    (inForce : InForce checkSignature builtin checkpoints)
    (signed : checkSignature data = true)
    (decoded : setData data = .ok point) :
    InForce checkSignature builtin
      (insertNew checkpoints point.m_height point.m_hashCheckpoint) := by
  intro height hash found
  rw [lookup_insertNew] at found
  rcases Option.or_eq_some_iff.mp found with old | ⟨-, new⟩
  · exact inForce height hash old
  · split_ifs at new with same
    cases new
    exact Or.inr ⟨data, point, signed, decoded, same, rfl⟩

theorem records_processCheckpoint
    (actions : ChainActions χ) (vdata : List CSyncData) (state : SyncState χ)
    (records : Records checkSignature state.db)
    (inForce : InForce checkSignature builtin state.mapCheckpoints) :
    Records checkSignature
        (processCheckpoint checkSignature actions vdata state).1.db ∧
      InForce checkSignature builtin
        (processCheckpoint checkSignature actions vdata
          state).1.mapCheckpoints := by
  induction vdata generalizing state with
  | nil => exact ⟨records, inForce⟩
  | cons data rest inductionHypothesis =>
      rw [processCheckpoint]
      split_ifs with signed
      · cases decoded : setData data with
        | error failure => exact ⟨records, inForce⟩
        | ok point =>
            dsimp only
            split_ifs
            · exact inductionHypothesis state records inForce
            · exact inductionHypothesis
                (acceptCheckpoint actions state data point)
                (records.writeCheckpoint signed decoded)
                (inForce.insertNew signed decoded)
      · exact inductionHypothesis state records inForce

theorem records_processKeys
    (vdata : List CSyncData) (records : Records checkSignature db) :
    Records checkSignature (processKeys checkSignature vdata db).1 := by
  induction vdata generalizing db with
  | nil => exact records
  | cons data rest inductionHypothesis =>
      rw [processKeys]
      split_ifs with signed
      · cases decoded : keyOfData data with
        | error failure => exact records
        | ok key =>
            exact inductionHypothesis (records.writeLotteryKey signed decoded)
      · exact inductionHypothesis records

/-- What is stored and enforced after any run was signed. -/
theorem records_after
    (actions : ChainActions χ) (chain : χ) (steps : List SyncStep) :
    Records checkSignature
        (Run.after checkSignature actions builtin chain steps).state.db ∧
      InForce checkSignature builtin
        (Run.after checkSignature actions builtin chain
          steps).state.mapCheckpoints := by
  induction steps using List.reverseRecOn with
  | nil =>
      refine ⟨⟨?_, ?_⟩, fun height hash found => Or.inl found⟩
      · intro nId data found
        cases found
      · intro height data found
        cases found
  | append_singleton steps step inductionHypothesis =>
      rcases inductionHypothesis with ⟨records, inForce⟩
      have formed :=
        (tracks_after checkSignature actions builtin chain steps).formed
      rw [Run.after, List.foldl_concat, ← Run.after]
      cases step with
      | checkpoint vdata =>
          exact records_processCheckpoint actions vdata _ records inForce
      | lotterykey vdata =>
          exact ⟨records_processKeys vdata records, inForce⟩
      | restart =>
          refine ⟨records, fun height hash found => ?_⟩
          rw [Run.step, loadCheckPoint_spec formed] at found
          rcases Option.or_eq_some_iff.mp found with old | ⟨-, stored⟩
          · exact Or.inl old
          · rcases Option.bind_eq_some_iff.mp stored with ⟨data, read, hashed⟩
            rcases records.points height data read with
              ⟨signed, point, decoded, isHeight⟩
            rw [hashOf, decoded] at hashed
            cases hashed
            exact Or.inr ⟨data, point, signed, decoded, isHeight, rfl⟩

end Runs

/-! ## Purposes -/

/-- Only data that decode in one way are signed. -/
def Separated (checkSignature : CSyncData → Bool) : Prop :=
  ∀ data, checkSignature data = true →
    (∃ point : CSyncCheckPoint, data.m_vchMsg = point.serialize ∧
      2 ≤ lowByte point.m_height) ∨
    ∃ key : CLottoFileKey, data.m_vchMsg = key.serialize ∧
      key.Key.length = 1

/-- What is stored and enforced was signed for that purpose. -/
structure Purposeful
    (checkSignature : CSyncData → Bool) (builtin : MapCheckpoints)
    (state : SyncState χ) : Prop where
  keys :
    ∀ nId data, readLotteryKey state.db nId = some data →
      ∃ key value, data.m_vchMsg = key.serialize ∧ key.Index = nId ∧
        keyOfData data = .ok key ∧ key.Key = [value]
  points :
    ∀ height data, readCheckpoint state.db height = some data →
      ∃ point : CSyncCheckPoint,
        data.m_vchMsg = point.serialize ∧ point.m_height = height
  inForce :
    ∀ height hash, state.mapCheckpoints.lookup height = some hash →
      builtin.lookup height = some hash ∨
        ∃ data, checkSignature data = true ∧
          ∃ point : CSyncCheckPoint, data.m_vchMsg = point.serialize ∧
            point.m_height = height ∧ point.m_hashCheckpoint = hash

section Purposes

variable {checkSignature : CSyncData → Bool}

theorem keyOfData_serialize
    {key : CLottoFileKey} (small : key.Key.length ≤ MAX_SIZE)
    (sig : List UInt8) :
    keyOfData ⟨key.serialize, sig⟩ = .ok key := by
  have keys :
      Reads (readVector readUint256) (writeVector writeUint256 key.Key)
        key.Key :=
    reads_readVector small fun value _ => reads_readUint256 value
  rw [keyOfData, CLottoFileKey.serialize, readCLottoFileKey,
    bind_of_ok (reads_readInt32 _ _), bind_of_ok keys.done]
  rfl

theorem setData_serialize (point : CSyncCheckPoint) (sig : List UInt8) :
    setData ⟨point.serialize, sig⟩ = .ok point := by
  rw [setData, CSyncCheckPoint.serialize, readCSyncCheckPoint,
    bind_of_ok (reads_readInt32 _ _), bind_of_ok (reads_readInt32 _ _),
    bind_of_ok (reads_readUint256 _).done]
  rfl

/-- Signed data that decode as a key are a single key. -/
theorem Separated.key
    (separated : Separated checkSignature) {key : CLottoFileKey}
    (signed : checkSignature data = true)
    (decoded : keyOfData data = .ok key) :
    data.m_vchMsg = key.serialize ∧ key.Key.length = 1 := by
  rcases data with ⟨msg, sig⟩
  rcases separated ⟨msg, sig⟩ signed with
    ⟨point, rfl, apart⟩ | ⟨other, rfl, single⟩
  · have low := (keyOfData_checkpoint_iff point sig).mp ⟨key, decoded⟩
    omega
  · rw [keyOfData_serialize (by rw [single]; decide)] at decoded
    cases decoded
    exact ⟨rfl, single⟩

/-- Signed data that decode as a checkpoint are one. -/
theorem Separated.point
    (separated : Separated checkSignature) {point : CSyncCheckPoint}
    (signed : checkSignature data = true)
    (decoded : setData data = .ok point) :
    data.m_vchMsg = point.serialize := by
  rcases data with ⟨msg, sig⟩
  rcases separated ⟨msg, sig⟩ signed with
    ⟨other, rfl, -⟩ | ⟨key, rfl, single⟩
  · rw [setData_serialize] at decoded
    cases decoded
    rfl
  · have nonempty : key.Key ≠ [] := by
      intro empty
      rw [empty] at single
      cases single
    exact absurd single ((setData_key_iff sig nonempty).mp ⟨point, decoded⟩)

end Purposes

/--
A signed checkpoint leaves the lottery keys alone exactly when the low byte of
its height is at least two, and a signed list of lottery keys leaves the
checkpoints and the chain alone exactly when it is a single key.  When only
such data are signed, everything stored was signed for its purpose.
-/
theorem signedData_separated_iff
    [Inhabited χ] (checkSignature : CSyncData → Bool)
    (actions : ChainActions χ) :
    (∀ (point : CSyncCheckPoint) (sig : List UInt8),
      checkSignature ⟨point.serialize, sig⟩ = true →
        ((∀ state : SyncState χ,
          (processLotteryKey checkSignature actions
            [⟨point.serialize, sig⟩] state).db = state.db) ↔
          2 ≤ lowByte point.m_height)) ∧
    (∀ (key : CLottoFileKey) (sig : List UInt8), key.Key ≠ [] →
      checkSignature ⟨key.serialize, sig⟩ = true →
        ((∀ state : SyncState χ,
          (processCheckpoint checkSignature actions
            [⟨key.serialize, sig⟩] state).1 = state) ↔
          key.Key.length = 1)) ∧
    (Separated checkSignature →
      ∀ (builtin : MapCheckpoints) (chain : χ) (steps : List SyncStep),
        Purposeful checkSignature builtin
          (Run.after checkSignature actions builtin chain steps).state) := by
  refine ⟨fun point sig signed => ?_, fun key sig nonempty signed => ?_,
    fun separated builtin chain steps => ?_⟩
  · rw [processLotteryKey_unchanged_iff checkSignature actions signed,
      keyOfData_checkpoint_iff, Nat.not_le]
    exact Iff.rfl
  · rw [processCheckpoint_unchanged_iff checkSignature actions signed,
      setData_key_iff sig nonempty, not_not]
  · have stored : Records checkSignature
          (Run.after checkSignature actions builtin chain steps).state.db ∧
        InForce checkSignature builtin
          (Run.after checkSignature actions builtin chain
            steps).state.mapCheckpoints :=
      records_after actions chain steps
    rcases stored with ⟨records, inForce⟩
    constructor
    · intro nId data found
      rcases records.keys nId data found with ⟨signed, key, decoded, isIndex⟩
      rcases separated.key signed decoded with ⟨payload, single⟩
      rcases List.length_eq_one_iff.mp single with ⟨value, only⟩
      exact ⟨key, value, payload, isIndex, decoded, only⟩
    · intro height data found
      rcases records.points height data found with
        ⟨signed, point, decoded, isHeight⟩
      exact ⟨point, separated.point signed decoded, isHeight⟩
    · intro height hash found
      rcases inForce height hash found with
        old | ⟨data, point, signed, decoded, isHeight, isHash⟩
      · exact Or.inl old
      · exact Or.inr ⟨data, signed, point, separated.point signed decoded,
          isHeight, isHash⟩

/-- Only the checkpoint for height 5 is signed. -/
def onlyPoint (data : CSyncData) : Bool :=
  data = signedPoint 1

/-- The checkpoint is delivered in both messages. -/
def bothMessages : List SyncStep :=
  [.checkpoint [signedPoint 1], .lotterykey [signedPoint 1], .restart]

theorem onlyPoint_purposeful :
    Purposeful onlyPoint mainCheckpoints
      (Run.after onlyPoint idleActions mainCheckpoints ()
        bothMessages).state := by
  refine (signedData_separated_iff onlyPoint idleActions).2.2 ?_ _ _ _
  intro data signed
  rw [of_decide_eq_true signed]
  exact Or.inl ⟨⟨1, 5, 1⟩, rfl, by decide⟩

/-- A signed checkpoint for height 512. -/
def misreadPoint : CSyncData :=
  ⟨(CSyncCheckPoint.mk 1 512 7).serialize, []⟩

/-- A signed list of two lottery keys. -/
def misreadKeys : CSyncData :=
  ⟨(CLottoFileKey.mk 3 [8, 9]).serialize, []⟩

/--
Delivered as a lottery key, the checkpoint is stored as a key file without a
key; delivered as a checkpoint, the two keys are stored and enforced.
-/
theorem signedData_misread :
    readLotteryKey
        (processLotteryKey (fun _ => true) idleActions [misreadPoint]
          ⟨∅, mainCheckpoints, ()⟩).db 1 = some misreadPoint ∧
      keyOfData misreadPoint = .ok ⟨1, []⟩ ∧
      readCheckpoint
        (processCheckpoint (fun _ => true) idleActions [misreadKeys]
          ⟨∅, mainCheckpoints, ()⟩).1.db 2050 = some misreadKeys ∧
      (processCheckpoint (fun _ => true) idleActions [misreadKeys]
          ⟨∅, mainCheckpoints, ()⟩).1.mapCheckpoints.lookup 2050 ≠ none := by
  refine ⟨?_, ?_, ?_, ?_⟩
  · decide
  · decide
  · decide
  · decide

end DSValue.Sync.Separation
