import DSValue.Core.Deserialize
import DSValue.Lib.KeepFirst

/-!
# Synchronised data

Checkpoints and lottery keys are sent as signed byte strings, in a
"checkpoint" and in a "lotterykey" message, and kept in one database.  Both
handlers verify one public key over the bytes and then decode them, each with
the layout of its own class; bytes behind the last field are ignored.

The handlers also move the active chain.  What `CheckActiveChain` and
`ActivateBestChain` do to it is a parameter here.
-/

namespace DSValue.Sync.SyncData

open DSValue.Lib.Encoding
open DSValue.Lib.Stream
open DSValue.Lib.KeepFirst
open DSValue.Core.Serialize
open DSValue.Core.Deserialize

/-! ## The signed data -/

/-- `SyncData::CSyncData`. -/
structure CSyncData where
  m_vchMsg : List UInt8
  m_vchSig : List UInt8
deriving DecidableEq

/-- `SyncData::CSyncCheckPoint`. -/
structure CSyncCheckPoint where
  m_version : Int32
  m_height : Int32
  m_hashCheckpoint : Uint256
deriving DecidableEq

def CSyncCheckPoint.serialize (point : CSyncCheckPoint) : List UInt8 :=
  writeInt32 point.m_version ++
    (writeInt32 point.m_height ++ writeUint256 point.m_hashCheckpoint)

def readCSyncCheckPoint : Reader CSyncCheckPoint := do
  let m_version ← readInt32
  let m_height ← readInt32
  let m_hashCheckpoint ← readUint256
  pure ⟨m_version, m_height, m_hashCheckpoint⟩

/-- `CSyncCheckPoint::SetData`. -/
def setData (data : CSyncData) : Except StreamError CSyncCheckPoint :=
  (readCSyncCheckPoint data.m_vchMsg).map Prod.fst

/-- `CLottoFileKey`. -/
structure CLottoFileKey where
  Index : Int32
  Key : List Uint256
deriving DecidableEq

def CLottoFileKey.serialize (key : CLottoFileKey) : List UInt8 :=
  writeInt32 key.Index ++ writeVector writeUint256 key.Key

def readCLottoFileKey : Reader CLottoFileKey := do
  let Index ← readInt32
  let Key ← readVector readUint256
  pure ⟨Index, Key⟩

/-- `sstream >> key` in the handler and in `ReadLotteryKey`. -/
def keyOfData (data : CSyncData) : Except StreamError CLottoFileKey :=
  (readCLottoFileKey data.m_vchMsg).map Prod.fst

/-! ## The database -/

/-- The database: serialized keys, and the data stored under them. -/
abbrev Db := Table (List UInt8) CSyncData

/-- The map of the checkpoints in memory. -/
abbrev MapCheckpoints := Table Int32 Uint256

def checkpointType : UInt8 := 0x63

def lotteryType : UInt8 := 0x6c

/-- The serialization of `make_pair(chType, n)`. -/
def pairKey (chType : UInt8) (n : Int32) : List UInt8 :=
  chType :: writeInt32 n

/-- `CSyncDataDb::WriteCheckpoint`. -/
def writeCheckpoint (db : Db) (height : Int32) (data : CSyncData) : Db :=
  db.insert (pairKey checkpointType height) data

/-- `CSyncDataDb::ReadCheckpoint`. -/
def readCheckpoint (db : Db) (height : Int32) : Option CSyncData :=
  db.lookup (pairKey checkpointType height)

/-- `CSyncDataDb::ExistCheckpoint`, whose key is the height alone. -/
def existCheckpoint (db : Db) (height : Int32) : Bool :=
  (db.lookup (writeInt32 height)).isSome

/-- `CSyncDataDb::WriteLotteryKey`. -/
def writeLotteryKey (db : Db) (nId : Int32) (data : CSyncData) : Db :=
  db.insert (pairKey lotteryType nId) data

/-- `CSyncDataDb::ReadLotteryKey`. -/
def readLotteryKey (db : Db) (nId : Int32) : Option CSyncData :=
  db.lookup (pairKey lotteryType nId)

/-- The height and the hash of a record that the cursor points at. -/
def decodeRecord (key : List UInt8) (data : CSyncData) :
    Except StreamError (Int32 × Uint256) := do
  let height ← readInt32 (key.drop 1)
  let point ← setData data
  pure (height.1, point.m_hashCheckpoint)

/-- The loop of `LoadCheckPoint` over the records of its type. -/
def loadRecords :
    List (Σ _ : List UInt8, CSyncData) → MapCheckpoints →
      MapCheckpoints × Bool
  | [], values => (values, true)
  | record :: rest, values =>
      match decodeRecord record.1 record.2 with
      | .error _ => (values, false)
      | .ok (height, hash) =>
          loadRecords rest (insertNew values height hash)

/--
`CSyncDataDb::LoadCheckPoint`.  The cursor starts at the least key of the type
and stops behind its last one, so it sees all records of the type.
-/
def loadCheckPoint (db : Db) (values : MapCheckpoints) :
    MapCheckpoints × Bool :=
  loadRecords
    (db.entries.filter fun record => record.1.head? = some checkpointType)
    values

/-! ## The handlers -/

structure SyncState (χ : Type) where
  db : Db
  mapCheckpoints : MapCheckpoints
  chain : χ

/-- What the handlers and a restart do to the active chain. -/
structure ChainActions (χ : Type) where
  checkActiveChain : MapCheckpoints → Int32 → Uint256 → χ → χ
  activateBestChain : Db → χ → χ
  reload : χ → χ

variable {χ : Type}

/-- The state after a checkpoint is written and enforced. -/
def acceptCheckpoint
    (actions : ChainActions χ) (state : SyncState χ) (data : CSyncData)
    (point : CSyncCheckPoint) : SyncState χ :=
  let checkpoints :=
    insertNew state.mapCheckpoints point.m_height point.m_hashCheckpoint
  { db := writeCheckpoint state.db point.m_height data
    mapCheckpoints := checkpoints
    chain :=
      actions.checkActiveChain checkpoints point.m_height
        point.m_hashCheckpoint state.chain }

/--
`ProcessMessage` of a "checkpoint" message, with the checkpoints whose heights
go to `vIndex`.  Data that cannot be decoded end the handler with an exception.
-/
def processCheckpoint
    (checkSignature : CSyncData → Bool) (actions : ChainActions χ) :
    List CSyncData → SyncState χ → SyncState χ × List CSyncCheckPoint
  | [], state => (state, [])
  | data :: rest, state =>
      if checkSignature data then
        match setData data with
        | .error _ => (state, [])
        | .ok point =>
            if existCheckpoint state.db point.m_height then
              processCheckpoint checkSignature actions rest state
            else
              let result :=
                processCheckpoint checkSignature actions rest
                  (acceptCheckpoint actions state data point)
              (result.1, point :: result.2)
      else processCheckpoint checkSignature actions rest state

/--
The loop of a "lotterykey" message: the database, the indexes of the written
keys, and whether it ended without an exception.
-/
def processKeys (checkSignature : CSyncData → Bool) :
    List CSyncData → Db → Db × List Int32 × Bool
  | [], db => (db, [], true)
  | data :: rest, db =>
      if checkSignature data then
        match keyOfData data with
        | .error _ => (db, [], false)
        | .ok key =>
            let result :=
              processKeys checkSignature rest (writeLotteryKey db key.Index data)
            (result.1, key.Index :: result.2.1, result.2.2)
      else processKeys checkSignature rest db

/-- `ProcessMessage` of a "lotterykey" message. -/
def processLotteryKey
    (checkSignature : CSyncData → Bool) (actions : ChainActions χ)
    (vdata : List CSyncData) (state : SyncState χ) : SyncState χ :=
  let result := processKeys checkSignature vdata state.db
  { state with
    db := result.1
    chain :=
      if result.2.2 = true ∧ result.2.1 ≠ [] then
        actions.activateBestChain result.1 state.chain
      else state.chain }

/-! ## Runs -/

inductive SyncStep where
  | checkpoint (vdata : List CSyncData)
  | lotterykey (vdata : List CSyncData)
  | restart

/-- A state, and the checkpoints accepted so far, the oldest first. -/
structure Run (χ : Type) where
  state : SyncState χ
  accepted : List CSyncCheckPoint

/-- The first start, with the checkpoints of the network. -/
def Run.start (builtin : MapCheckpoints) (chain : χ) : Run χ :=
  ⟨⟨∅, builtin, chain⟩, []⟩

def Run.step
    (checkSignature : CSyncData → Bool) (actions : ChainActions χ)
    (builtin : MapCheckpoints) (run : Run χ) : SyncStep → Run χ
  | .checkpoint vdata =>
      let result := processCheckpoint checkSignature actions vdata run.state
      ⟨result.1, run.accepted ++ result.2⟩
  | .lotterykey vdata =>
      ⟨processLotteryKey checkSignature actions vdata run.state, run.accepted⟩
  | .restart =>
      ⟨{ db := run.state.db
         mapCheckpoints := (loadCheckPoint run.state.db builtin).1
         chain := actions.reload run.state.chain },
        run.accepted⟩

/-- The run of some steps from the first start. -/
def Run.after
    (checkSignature : CSyncData → Bool) (actions : ChainActions χ)
    (builtin : MapCheckpoints) (chain : χ) (steps : List SyncStep) : Run χ :=
  steps.foldl (Run.step checkSignature actions builtin)
    (Run.start builtin chain)

end DSValue.Sync.SyncData
