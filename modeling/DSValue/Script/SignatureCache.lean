import DSValue.Lib.System
import DSValue.Script.StandardOutputs
import Mathlib.Data.List.Lex

/-!
# The cache of valid signatures

`CheckSig` asks a cache before it verifies a signature and stores what it found
to be valid.  The cache is shared by all threads that check scripts, is locked
for a lookup and for a store, and forgets entries at random when it is full.  In
every interleaving an answer is the one that a check without the cache gives.
-/

namespace DSValue.Script.SignatureCache

open DSValue.Lib
open DSValue.Core.Transaction
open DSValue.Core.Serialize
open DSValue.Script.Scan (CScript)
open DSValue.Script.Solver (pubKeyBytes)
open DSValue.Script.SignatureFormat
open DSValue.Script.SignatureHash (signatureHash)
open DSValue.Script.Number
open DSValue.Script.Interpreter
open DSValue.Script.StandardOutputs (generator sampleHashes)

/-- `sigdata_type`. -/
structure SigData where
  hash : Uint256
  vchSig : List UInt8
  pubKey : List UInt8
deriving DecidableEq

/-- The order of the tuples in the set. -/
def SigData.less (a b : SigData) : Bool :=
  a.hash < b.hash ∨ a.hash = b.hash ∧
    (a.vchSig < b.vchSig ∨ a.vchSig = b.vchSig ∧ a.pubKey < b.pubKey)

/-- `setValid`, in the order of the set. -/
abbrev SetValid := List SigData

/-- `std::set::insert`. -/
def insertData (k : SigData) : SetValid → SetValid
  | [] => [k]
  | entry :: entries =>
      if k.less entry then k :: entry :: entries
      else if entry.less k then entry :: insertData k entries
      else entry :: entries

/--
The entry that is forgotten: the first one behind a random hash without a
signature and a valid key, or the first of all.
-/
def evictOne (randomHash : Uint256) (setValid : SetValid) : SetValid :=
  match setValid.find? fun entry =>
      randomHash < entry.hash ∨ entry.hash = randomHash ∧ entry.vchSig ≠ [] with
  | some entry => setValid.erase entry
  | none => setValid.tail

/-- Forgetting entries until few enough are left. -/
def evictLoop (nMaxCacheSize : Int) (getRandHash : Nat → Uint256) :
    Nat → SetValid → SetValid
  | 0, setValid => setValid
  | bound + 1, setValid =>
      if nMaxCacheSize < setValid.length then
        evictLoop nMaxCacheSize getRandHash bound (evictOne (getRandHash bound) setValid)
      else setValid

/-- `CSignatureCache::Set`. -/
def setData (nMaxCacheSize : Int) (getRandHash : Nat → Uint256) (k : SigData)
    (setValid : SetValid) : SetValid :=
  if nMaxCacheSize ≤ 0 then setValid
  else insertData k (evictLoop nMaxCacheSize getRandHash setValid.length setValid)

/-! ## Calls of `CheckSig` -/

/-- The arguments of `CheckSig`. -/
structure SigCall where
  vchSig : Valtype
  vchPubKey : Valtype
  scriptCode : CScript
  txTo : CTransaction
  nIn : UInt32
  nHashType : Int32
  flags : UInt32
deriving DecidableEq

/-- The arguments of the script that the call stands in. -/
def SigCall.evalArgs (crypto : Crypto) (call : SigCall) : EvalArgs where
  crypto := crypto
  txTo := call.txTo
  nIn := call.nIn
  flags := call.flags
  nHashType := call.nHashType

/-- What is looked up, when the key and the hash type pass. -/
def SigCall.sigData (crypto : Crypto) (call : SigCall) : Option SigData :=
  if pubKeyBytes call.vchPubKey = [] then none
  else
    match call.vchSig.getLast? with
    | none => none
    | some last =>
        match hashTypeOf call.nHashType last with
        | none => none
        | some nHashType =>
            some
              { hash := crypto.toUint256
                  (signatureHash call.scriptCode call.txTo call.nIn nHashType)
                vchSig := call.vchSig.dropLast
                pubKey := pubKeyBytes call.vchPubKey }

/-- `CPubKey::Verify` of what is looked up. -/
def SigData.verifies (crypto : Crypto) (data : SigData) : Bool :=
  crypto.verify data.pubKey data.hash data.vchSig

/-- The cache and the threads that use it. -/
structure CacheState where
  setValid : SetValid
  /-- What a thread found to be valid and is about to store. -/
  storing : Nat → Option (SigCall × SigData)
  answers : List (SigCall × Bool)

/-- The cache is empty when the program starts. -/
def CacheState.initial : CacheState where
  setValid := []
  storing := fun _ => none
  answers := []

def CacheState.answer (state : CacheState) (call : SigCall) (value : Bool) :
    CacheState :=
  { state with answers := (call, value) :: state.answers }

/-- What a thread does between two locks. -/
inductive CacheAction where
  | check (thread : Nat) (call : SigCall)
  | store (thread : Nat) (getRandHash : Nat → Uint256)

/-- `CheckSig` up to the store. -/
def beginCheck (crypto : Crypto) (thread : Nat) (call : SigCall)
    (state : CacheState) : CacheState :=
  match call.sigData crypto with
  | none => state.answer call false
  | some data =>
      if data ∈ state.setValid then state.answer call true
      else if data.verifies crypto = false then state.answer call false
      else if call.flags &&& SCRIPT_VERIFY_NOCACHE ≠ 0 then state.answer call true
      else
        { state with
          storing := Function.update state.storing thread (some (call, data)) }

/-- The store behind a successful check. -/
def finishCheck (nMaxCacheSize : Int) (thread : Nat) (getRandHash : Nat → Uint256)
    (state : CacheState) : Option CacheState :=
  match state.storing thread with
  | none => none
  | some (call, data) =>
      some
        { setValid := setData nMaxCacheSize getRandHash data state.setValid
          storing := Function.update state.storing thread none
          answers := (call, true) :: state.answers }

/-- One section of one thread; a thread begins a call when it has no other one. -/
def cacheStep (crypto : Crypto) (nMaxCacheSize : Int) (state : CacheState) :
    CacheAction → Option CacheState
  | .check thread call =>
      match state.storing thread with
      | some _ => none
      | none => some (beginCheck crypto thread call state)
  | .store thread getRandHash =>
      finishCheck nMaxCacheSize thread getRandHash state

/-- The sections of all threads in the order of the locks. -/
def cacheSystem (crypto : Crypto) (nMaxCacheSize : Int) :
    System CacheState CacheAction where
  init := CacheState.initial
  step := cacheStep crypto nMaxCacheSize

variable {crypto : Crypto} {nMaxCacheSize : Int} {k data entry : SigData}
  {setValid : SetValid} {state next : CacheState} {call : SigCall}

/-! ## What the cache holds -/

theorem mem_insertData : entry ∈ insertData k setValid → entry = k ∨ entry ∈ setValid := by
  induction setValid with
  | nil => exact fun listed => Or.inl (List.mem_singleton.mp listed)
  | cons first others inductionHypothesis =>
      rw [insertData]
      split_ifs with front behind
      · exact fun listed => List.mem_cons.mp listed
      · rw [List.mem_cons, List.mem_cons]
        rintro (same | listed)
        · exact Or.inr (Or.inl same)
        · exact (inductionHypothesis listed).imp_right Or.inr
      · exact Or.inr

theorem length_insertData_le : (insertData k setValid).length ≤ setValid.length + 1 := by
  induction setValid with
  | nil => exact le_refl _
  | cons first others inductionHypothesis =>
      rw [insertData]
      split_ifs
      · exact le_refl _
      · exact Nat.succ_le_succ inductionHypothesis
      · exact Nat.le_succ _

theorem evictOne_subset (randomHash : Uint256) : evictOne randomHash setValid ⊆ setValid := by
  rw [evictOne]
  split
  · exact List.erase_subset
  · exact List.tail_subset setValid

/-- Something is forgotten. -/
theorem length_evictOne (randomHash : Uint256) :
    (evictOne randomHash setValid).length = setValid.length - 1 := by
  rw [evictOne]
  split
  next found => exact List.length_erase_of_mem (List.mem_of_find?_eq_some found)
  · exact List.length_tail

theorem evictLoop_subset
    (getRandHash : Nat → Uint256) (bound : Nat) :
    evictLoop nMaxCacheSize getRandHash bound setValid ⊆ setValid := by
  induction bound generalizing setValid with
  | zero => exact fun _ => id
  | succ bound inductionHypothesis =>
      rw [evictLoop]
      split_ifs
      · exact List.Subset.trans inductionHypothesis (evictOne_subset _)
      · exact fun _ => id

/-- The loop ends with few enough entries. -/
theorem length_evictLoop_le
    (getRandHash : Nat → Uint256) (positive : 0 < nMaxCacheSize) {bound : Nat}
    (enough : setValid.length ≤ bound) :
    ((evictLoop nMaxCacheSize getRandHash bound setValid).length : Int) ≤
      nMaxCacheSize := by
  induction bound generalizing setValid with
  | zero =>
      rw [evictLoop, List.length_eq_zero_iff.mp (Nat.le_zero.mp enough)]
      exact positive.le
  | succ bound inductionHypothesis =>
      rw [evictLoop]
      split_ifs with many
      · refine inductionHypothesis ?_
        rw [length_evictOne]
        omega
      · exact not_lt.mp many

/-! ## Every interleaving -/

theorem checkSig_of_sigData (call : SigCall) :
    (call.evalArgs crypto).checkSig call.vchSig call.vchPubKey call.scriptCode =
      match call.sigData crypto with
      | none => false
      | some data => data.verifies crypto := by
  rw [EvalArgs.checkSig, SigCall.sigData]
  split_ifs
  · rfl
  · cases call.vchSig.getLast? with
    | none => rfl
    | some last =>
        change (match hashTypeOf call.nHashType last with | none => _ | some _ => _) = _
        dsimp only
        cases hashTypeOf call.nHashType last <;> rfl

/-- What holds between two sections. -/
structure Sound (crypto : Crypto) (nMaxCacheSize : Int) (state : CacheState) :
    Prop where
  valid : ∀ data ∈ state.setValid, data.verifies crypto = true
  stored : ∀ thread call data, state.storing thread = some (call, data) →
    call.sigData crypto = some data ∧ data.verifies crypto = true
  answered : ∀ call value, (call, value) ∈ state.answers →
    value = (call.evalArgs crypto).checkSig call.vchSig call.vchPubKey call.scriptCode
  few : (state.setValid.length : Int) ≤ max 0 (nMaxCacheSize + 1)

theorem sound_initial : Sound crypto nMaxCacheSize CacheState.initial where
  valid := fun _ listed => by cases listed
  stored := fun _ _ _ pending => by cases pending
  answered := fun _ _ listed => by cases listed
  few := le_max_left _ _

theorem Sound.answer
    {value : Bool} (sound : Sound crypto nMaxCacheSize state)
    (right : value =
      (call.evalArgs crypto).checkSig call.vchSig call.vchPubKey call.scriptCode) :
    Sound crypto nMaxCacheSize (state.answer call value) where
  valid := sound.valid
  stored := sound.stored
  answered := by
    intro other result listed
    rcases List.mem_cons.mp listed with same | before
    · cases same
      exact right
    · exact sound.answered _ _ before
  few := sound.few

theorem Sound.beginCheck
    (sound : Sound crypto nMaxCacheSize state) (thread : Nat) :
    Sound crypto nMaxCacheSize (beginCheck crypto thread call state) := by
  have right := @checkSig_of_sigData crypto call
  rw [SignatureCache.beginCheck]
  cases looked : call.sigData crypto with
  | none =>
      rw [looked] at right
      exact sound.answer right.symm
  | some data =>
      rw [looked] at right
      dsimp only at right ⊢
      split_ifs with listed invalid uncached
      · exact sound.answer ((sound.valid data listed).symm.trans right.symm)
      · exact sound.answer (invalid.symm.trans right.symm)
      · exact sound.answer ((Bool.not_eq_false _ ▸ invalid).symm.trans right.symm)
      · refine ⟨sound.valid, ?_, sound.answered, sound.few⟩
        intro other pending found stored
        change Function.update state.storing thread _ other = _ at stored
        by_cases same : other = thread
        · subst same
          rw [Function.update_self] at stored
          cases stored
          exact ⟨looked, Bool.not_eq_false _ ▸ invalid⟩
        · rw [Function.update_of_ne same] at stored
          exact sound.stored _ _ _ stored

theorem mem_setData
    {getRandHash : Nat → Uint256}
    (listed : entry ∈ setData nMaxCacheSize getRandHash k setValid) :
    entry = k ∨ entry ∈ setValid := by
  rw [setData] at listed
  split_ifs at listed
  · exact Or.inr listed
  · exact (mem_insertData listed).imp_right fun before =>
      evictLoop_subset _ _ before

theorem length_setData_le
    (getRandHash : Nat → Uint256)
    (few : (setValid.length : Int) ≤ max 0 (nMaxCacheSize + 1)) :
    ((setData nMaxCacheSize getRandHash k setValid).length : Int) ≤
      max 0 (nMaxCacheSize + 1) := by
  rw [setData]
  split_ifs with off
  · exact few
  · have left := length_evictLoop_le getRandHash (not_le.mp off)
      (le_refl setValid.length)
    have inserted := @length_insertData_le k
      (evictLoop nMaxCacheSize getRandHash setValid.length setValid)
    exact le_max_of_le_right (by omega)

theorem Sound.finishCheck
    {thread : Nat} {getRandHash : Nat → Uint256}
    (sound : Sound crypto nMaxCacheSize state)
    (finished : finishCheck nMaxCacheSize thread getRandHash state = some next) :
    Sound crypto nMaxCacheSize next := by
  rw [SignatureCache.finishCheck] at finished
  split at finished
  · cases finished
  next call data pending =>
    cases finished
    rcases sound.stored _ _ _ pending with ⟨looked, verified⟩
    refine ⟨?_, ?_, ?_, length_setData_le getRandHash sound.few⟩
    · intro entry listed
      rcases mem_setData listed with rfl | before
      · exact verified
      · exact sound.valid entry before
    · intro other call data stored
      change Function.update state.storing thread none other = _ at stored
      by_cases same : other = thread
      · subst same
        rw [Function.update_self] at stored
        cases stored
      · rw [Function.update_of_ne same] at stored
        exact sound.stored _ _ _ stored
    · have right := @checkSig_of_sigData crypto call
      rw [looked] at right
      exact (sound.answer (verified.symm.trans right.symm)).answered

theorem Sound.step
    {action : CacheAction} (sound : Sound crypto nMaxCacheSize state)
    (taken : cacheStep crypto nMaxCacheSize state action = some next) :
    Sound crypto nMaxCacheSize next := by
  cases action with
  | check thread call =>
      rw [cacheStep] at taken
      split at taken <;> cases taken
      exact sound.beginCheck thread
  | store thread getRandHash => exact sound.finishCheck taken

/--
In every interleaving of the threads, whatever is forgotten, the cache gives
each call the answer of a check without a cache, and it stays small.
-/
theorem signatureCache_transparent
    (crypto : Crypto) (nMaxCacheSize : Int) (actions : List CacheAction)
    (state : CacheState)
    (ran : (cacheSystem crypto nMaxCacheSize).run actions = some state) :
    (∀ call value, (call, value) ∈ state.answers →
      value =
        (call.evalArgs crypto).checkSig call.vchSig call.vchPubKey call.scriptCode) ∧
      (state.setValid.length : Int) ≤ max 0 (nMaxCacheSize + 1) := by
  have sound : Sound crypto nMaxCacheSize state :=
    System.run_invariant sound_initial (fun _ _ _ => Sound.step) ran
  exact ⟨sound.answered, sound.few⟩

/-- A call of the key that is accepted for everything. -/
def sampleCall : SigCall where
  vchSig := [0x01]
  vchPubKey := generator
  scriptCode := []
  txTo := ⟨1, [], [], 0⟩
  nIn := 0
  nHashType := 0
  flags := 0

/-- Two threads verify one signature, the third call finds it. -/
theorem signatureCache_transparent_twice :
    true = (sampleCall.evalArgs ⟨sampleHashes, fun _ _ _ => true⟩).checkSig
      sampleCall.vchSig sampleCall.vchPubKey sampleCall.scriptCode :=
  (signatureCache_transparent ⟨sampleHashes, fun _ _ _ => true⟩ 50000
    [.check 1 sampleCall, .check 2 sampleCall, .store 1 fun _ => 0,
      .store 2 fun _ => 0, .check 1 sampleCall] _ rfl).1 sampleCall true
    List.mem_cons_self

end DSValue.Script.SignatureCache
