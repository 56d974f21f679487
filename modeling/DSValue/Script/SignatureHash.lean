import DSValue.Core.Transaction
import DSValue.Script.CodeSeparators

/-!
# The hash that is signed

`SignatureHash` decides for every field what it writes.  The version in the
tests copies the transaction, edits the copy and serializes it.  Both hash
the same bytes, as long as the counts of inputs, outputs and separators fit
into the `unsigned int` that the code keeps them in.
-/

namespace DSValue.Script.SignatureHash

open DSValue.Lib
open DSValue.Core.Serialize
open DSValue.Core.Transaction
open DSValue.Script.Scan (CScript)
open DSValue.Script.CodeSeparators

def SIGHASH_ALL : Int32 := 1
def SIGHASH_NONE : Int32 := 2
def SIGHASH_SINGLE : Int32 := 3
def SIGHASH_ANYONECANPAY : Int32 := 0x80

/-- What is returned: 1, or the hash of some bytes. -/
inductive Uint256OrHash where
  | one
  | hash (bytes : List UInt8)
deriving DecidableEq

/-! ## The streaming version -/

/-- `CTransactionSignatureSerializer`. -/
structure CTransactionSignatureSerializer where
  txTo : CTransaction
  scriptCode : CScript
  nIn : UInt32
  fAnyoneCanPay : Bool
  fHashSingle : Bool
  fHashNone : Bool

namespace CTransactionSignatureSerializer

/-- The constructor. -/
def create (txToIn : CTransaction) (scriptCodeIn : CScript) (nInIn : UInt32)
    (nHashTypeIn : Int32) : CTransactionSignatureSerializer where
  txTo := txToIn
  scriptCode := scriptCodeIn
  nIn := nInIn
  fAnyoneCanPay := nHashTypeIn &&& SIGHASH_ANYONECANPAY ≠ 0
  fHashSingle := nHashTypeIn &&& 0x1f = SIGHASH_SINGLE
  fHashNone := nHashTypeIn &&& 0x1f = SIGHASH_NONE

/-- `SerializeInput`. -/
def serializeInput (txTmp : CTransactionSignatureSerializer)
    (nInput : UInt32) : Except Fault (List UInt8) :=
  let nInput := if txTmp.fAnyoneCanPay then txTmp.nIn else nInput
  match txTmp.txTo.vin[nInput.toNat]? with
  | none => throw .outOfRange
  | some txin =>
      pure
        (writeUint256 txin.prevout.hash ++ writeUInt32 txin.prevout.n ++
          (if nInput ≠ txTmp.nIn then writeScript []
          else serializeScriptCode txTmp.scriptCode) ++
          (if nInput ≠ txTmp.nIn ∧ (txTmp.fHashSingle ∨ txTmp.fHashNone) then
            writeInt32 0
          else writeUInt32 txin.nSequence))

/-- `SerializeOutput`. -/
def serializeOutput (txTmp : CTransactionSignatureSerializer)
    (nOutput : UInt32) : Except Fault (List UInt8) :=
  if txTmp.fHashSingle ∧ nOutput ≠ txTmp.nIn then pure CTxOut.null.serialize
  else
    match txTmp.txTo.vout[nOutput.toNat]? with
    | none => throw .outOfRange
    | some txout => pure txout.serialize

def nInputs (txTmp : CTransactionSignatureSerializer) : UInt32 :=
  if txTmp.fAnyoneCanPay then 1 else UInt32.ofNat txTmp.txTo.vin.length

def nOutputs (txTmp : CTransactionSignatureSerializer) : UInt32 :=
  if txTmp.fHashNone then 0
  else if txTmp.fHashSingle then txTmp.nIn + 1
  else UInt32.ofNat txTmp.txTo.vout.length

/-- `Serialize`. -/
def serialize (txTmp : CTransactionSignatureSerializer) :
    Except Fault (List UInt8) := do
  let vin ←
    (List.range txTmp.nInputs.toNat).mapM fun nInput =>
      txTmp.serializeInput (UInt32.ofNat nInput)
  let vout ←
    (List.range txTmp.nOutputs.toNat).mapM fun nOutput =>
      txTmp.serializeOutput (UInt32.ofNat nOutput)
  pure
    (writeInt32 txTmp.txTo.nVersion ++
      (writeCompactSize txTmp.nInputs.toUInt64 ++ vin.flatten) ++
      (writeCompactSize txTmp.nOutputs.toUInt64 ++ vout.flatten) ++
      writeUInt32 txTmp.txTo.nLockTime)

end CTransactionSignatureSerializer

/-- `SignatureHash`. -/
def signatureHash (scriptCode : CScript) (txTo : CTransaction) (nIn : UInt32)
    (nHashType : Int32) : Except Fault Uint256OrHash :=
  if txTo.vin.length ≤ nIn.toNat then pure .one
  else if nHashType &&& 0x1f = SIGHASH_SINGLE ∧ txTo.vout.length ≤ nIn.toNat then
    pure .one
  else do
    let ss ←
      (CTransactionSignatureSerializer.create txTo scriptCode nIn
        nHashType).serialize
    pure (.hash (ss ++ writeInt32 nHashType))

/-! ## The copying version -/

/--
A loop of an `unsigned int` over a vector: it ends when the size of the vector
is an `unsigned int`.
-/
def forEach {α : Type} (v : List α) (edit : Nat → α → α) :
    Except Fault (List α) :=
  if v.length < 2 ^ 32 then pure (v.mapIdx edit) else throw .unfinished

/-- The others may update their inputs at will. -/
def updateAtWill (nIn : UInt32) (i : Nat) (txin : CTxIn) : CTxIn :=
  if i ≠ nIn.toNat then { txin with nSequence := 0 } else txin

/-- The outputs are edited; there is no result where 1 is returned. -/
def editOutputs (txTmp : CTransaction) (nIn : UInt32) (nHashType : Int32) :
    Except Fault (Option CTransaction) :=
  if nHashType &&& 0x1f = SIGHASH_NONE then do
    let vin ← forEach txTmp.vin (updateAtWill nIn)
    pure (some { txTmp with vin := vin, vout := [] })
  else if nHashType &&& 0x1f = SIGHASH_SINGLE then
    if txTmp.vout.length ≤ nIn.toNat then pure none
    else do
      let vout :=
        (txTmp.vout.take (nIn + 1).toNat).mapIdx fun i txout =>
          if i < nIn.toNat then CTxOut.null else txout
      let vin ← forEach txTmp.vin (updateAtWill nIn)
      pure (some { txTmp with vin := vin, vout := vout })
  else pure (some txTmp)

/-- The other inputs are dropped. -/
def anyoneCanPay (txTmp : CTransaction) (nIn : UInt32) (nHashType : Int32) :
    Except Fault CTransaction :=
  if nHashType &&& SIGHASH_ANYONECANPAY ≠ 0 then
    match txTmp.vin[nIn.toNat]? with
    | none => throw .outOfRange
    | some txin => pure { txTmp with vin := (txTmp.vin.set 0 txin).take 1 }
  else pure txTmp

/-- `SignatureHashOld`. -/
def signatureHashOld (scriptCode : CScript) (txTo : CTransaction) (nIn : UInt32)
    (nHashType : Int32) : Except Fault Uint256OrHash :=
  if txTo.vin.length ≤ nIn.toNat then pure .one
  else do
    let scriptCode := (findAndDelete scriptCode [OP_CODESEPARATOR]).1
    let blanked ← forEach txTo.vin fun _ txin => { txin with scriptSig := [] }
    let vin :=
      blanked.modify nIn.toNat fun txin => { txin with scriptSig := scriptCode }
    let edited ← editOutputs { txTo with vin := vin } nIn nHashType
    match edited with
    | none => pure .one
    | some txTmp => do
        let txTmp ← anyoneCanPay txTmp nIn nHashType
        pure (.hash (txTmp.serialize ++ writeInt32 nHashType))

/-! ## The transaction that is signed -/

variable {scriptCode : CScript} {txTo : CTransaction} {nIn : UInt32}
  {nHashType : Int32}

/-- What the hash covers of an input. -/
def signedInput (scriptCode : CScript) (nIn : UInt32) (nHashType : Int32)
    (i : Nat) (txin : CTxIn) : CTxIn where
  prevout := txin.prevout
  scriptSig := if i = nIn.toNat then withoutSeparators scriptCode else []
  nSequence :=
    if i ≠ nIn.toNat ∧ (nHashType &&& 0x1f = SIGHASH_SINGLE ∨
        nHashType &&& 0x1f = SIGHASH_NONE) then 0
    else txin.nSequence

/-- What the hash covers of the outputs. -/
def signedOutputs (vout : List CTxOut) (nIn : UInt32) (nHashType : Int32) :
    List CTxOut :=
  if nHashType &&& 0x1f = SIGHASH_NONE then []
  else if nHashType &&& 0x1f = SIGHASH_SINGLE then
    (vout.take (nIn.toNat + 1)).mapIdx fun i txout =>
      if i < nIn.toNat then CTxOut.null else txout
  else vout

/-- The transaction that is serialized for the hash. -/
def signedTransaction (scriptCode : CScript) (txTo : CTransaction)
    (nIn : UInt32) (nHashType : Int32) : CTransaction where
  nVersion := txTo.nVersion
  vin :=
    if nHashType &&& SIGHASH_ANYONECANPAY ≠ 0 then
      txTo.vin[nIn.toNat]?.toList.map
        (signedInput scriptCode nIn nHashType nIn.toNat)
    else txTo.vin.mapIdx (signedInput scriptCode nIn nHashType)
  vout := signedOutputs txTo.vout nIn nHashType
  nLockTime := txTo.nLockTime

/-- The inputs of the copy with the scripts edited. -/
theorem blanked_eq (script : CScript) (vin : List CTxIn) (nIn : UInt32) :
    ((vin.mapIdx fun _ txin => { txin with scriptSig := [] }).modify nIn.toNat
        fun txin => { txin with scriptSig := script }) =
      vin.mapIdx fun i txin =>
        { txin with scriptSig := if i = nIn.toNat then script else [] } := by
  refine List.ext_getElem (by simp) ?_
  intro i _ _
  rw [List.getElem_modify, List.getElem_mapIdx, List.getElem_mapIdx]
  by_cases same : nIn.toNat = i
  · rw [if_pos same, if_pos same.symm]
  · rw [if_neg same, if_neg (Ne.symm same)]

/-- The inputs of the copy with the sequence numbers edited. -/
theorem updated_eq
    (partly : nHashType &&& 0x1f = SIGHASH_SINGLE ∨
      nHashType &&& 0x1f = SIGHASH_NONE) (vin : List CTxIn) :
    ((vin.mapIdx fun i txin =>
        { txin with
          scriptSig :=
            if i = nIn.toNat then withoutSeparators scriptCode
            else [] }).mapIdx (updateAtWill nIn)) =
      vin.mapIdx (signedInput scriptCode nIn nHashType) := by
  rw [List.mapIdx_mapIdx]
  congr 1
  funext i txin
  by_cases same : i = nIn.toNat
  · simp [updateAtWill, signedInput, same]
  · simp [updateAtWill, signedInput, same, partly]

theorem unchanged_eq
    (whole : ¬ (nHashType &&& 0x1f = SIGHASH_SINGLE ∨
      nHashType &&& 0x1f = SIGHASH_NONE)) (vin : List CTxIn) :
    (vin.mapIdx fun i txin =>
        { txin with
          scriptSig :=
            if i = nIn.toNat then withoutSeparators scriptCode else [] }) =
      vin.mapIdx (signedInput scriptCode nIn nHashType) := by
  congr 1
  funext i txin
  simp [signedInput, whole]

theorem forEach_eq_ok
    {α : Type} {v : List α} (few : v.length < 2 ^ 32) (edit : Nat → α → α) :
    forEach v edit = .ok (v.mapIdx edit) := by
  rw [forEach, if_pos few]
  rfl

theorem toNat_add_one (fits : nIn.toNat + 1 < 2 ^ 32) :
    (nIn + 1).toNat = nIn.toNat + 1 := by
  rw [UInt32.toNat_add]
  exact Nat.mod_eq_of_lt fits

theorem editOutputs_eq
    (single : nHashType &&& 0x1f = SIGHASH_SINGLE →
      nIn.toNat < txTo.vout.length)
    (fits : nIn.toNat + 1 < 2 ^ 32) (few : txTo.vin.length < 2 ^ 32) :
    editOutputs
        { txTo with
          vin := txTo.vin.mapIdx fun i txin =>
            { txin with
              scriptSig :=
                if i = nIn.toNat then withoutSeparators scriptCode else [] } }
        nIn nHashType =
      .ok (some
        { txTo with
          vin := txTo.vin.mapIdx (signedInput scriptCode nIn nHashType)
          vout := signedOutputs txTo.vout nIn nHashType }) := by
  rw [editOutputs, signedOutputs]
  split_ifs with isNone isSingle missing
  · rw [forEach_eq_ok (by simpa using few), updated_eq (Or.inr isNone)]
    rfl
  · exact absurd (single isSingle) (not_lt.mpr missing)
  · rw [forEach_eq_ok (by simpa using few), updated_eq (Or.inl isSingle),
      toNat_add_one fits]
    rfl
  · rw [unchanged_eq (not_or_intro isSingle isNone)]
    rfl

theorem take_one_set
    {α : Type} {v : List α} (nonempty : 0 < v.length) (value : α) :
    (v.set 0 value).take 1 = [value] := by
  cases v with
  | nil => exact absurd nonempty (Nat.lt_irrefl 0)
  | cons => rfl

theorem anyoneCanPay_eq (inside : nIn.toNat < txTo.vin.length) :
    anyoneCanPay
        { txTo with
          vin := txTo.vin.mapIdx (signedInput scriptCode nIn nHashType)
          vout := signedOutputs txTo.vout nIn nHashType } nIn nHashType =
      .ok (signedTransaction scriptCode txTo nIn nHashType) := by
  have found :
      (txTo.vin.mapIdx (signedInput scriptCode nIn nHashType))[nIn.toNat]? =
        some (signedInput scriptCode nIn nHashType nIn.toNat
          txTo.vin[nIn.toNat]) := by
    rw [List.getElem?_mapIdx, List.getElem?_eq_getElem inside]
    rfl
  rw [anyoneCanPay, signedTransaction]
  split_ifs with only
  · rw [found, List.getElem?_eq_getElem inside]
    dsimp only
    rw [take_one_set (by rw [List.length_mapIdx]; omega)]
    rfl
  · rfl

/-- The copying version hashes the signed transaction. -/
theorem signatureHashOld_eq
    (inside : nIn.toNat < txTo.vin.length)
    (single : nHashType &&& 0x1f = SIGHASH_SINGLE →
      nIn.toNat < txTo.vout.length)
    (few : txTo.vin.length < 2 ^ 32) :
    signatureHashOld scriptCode txTo nIn nHashType =
      .ok (.hash
        ((signedTransaction scriptCode txTo nIn nHashType).serialize ++
          writeInt32 nHashType)) := by
  rw [signatureHashOld, if_neg (not_le.mpr inside), findAndDelete_separators,
    forEach_eq_ok few]
  dsimp only [bind, Except.bind]
  rw [blanked_eq, editOutputs_eq single (by omega) few]
  dsimp only
  rw [anyoneCanPay_eq inside]
  rfl

/-! ## The streaming version serializes it -/

theorem mapM_range
    {β : Type} {f : Nat → Except Fault β} (values : List β)
    (each : ∀ i (inside : i < values.length), f i = .ok values[i]) :
    (List.range values.length).mapM f = .ok values := by
  induction values using List.reverseRecOn with
  | nil => rfl
  | append_singleton values last inductionHypothesis =>
      have first : ∀ i (inside : i < values.length), f i = .ok values[i] := by
        intro i inside
        have longer : i < (values ++ [last]).length := by
          rw [List.length_append]
          omega
        rw [each i longer, List.getElem_append_left inside]
      have final := each values.length (by simp)
      rw [List.getElem_append_right (le_refl _)] at final
      rw [List.length_append, List.length_singleton, List.range_succ,
        List.mapM_append, inductionHypothesis first, List.mapM_cons, final]
      simp [bind, Except.bind, pure, Except.pure]

theorem serializeInput_eq
    (parses : Parses scriptCode) (few : separators scriptCode < 2 ^ 32)
    {nInput : UInt32} {txin : CTxIn}
    (found :
      txTo.vin[(if nHashType &&& SIGHASH_ANYONECANPAY ≠ 0 then nIn
        else nInput).toNat]? = some txin) :
    (CTransactionSignatureSerializer.create txTo scriptCode nIn
        nHashType).serializeInput nInput =
      .ok
        (signedInput scriptCode nIn nHashType
          (if nHashType &&& SIGHASH_ANYONECANPAY ≠ 0 then nIn
            else nInput).toNat txin).serialize := by
  simp only [CTransactionSignatureSerializer.serializeInput,
    CTransactionSignatureSerializer.create, decide_eq_true_eq]
  generalize (if nHashType &&& SIGHASH_ANYONECANPAY ≠ 0 then nIn else nInput) =
    index at found ⊢
  rw [found]
  by_cases same : index = nIn
  · subst same
    simp [CTxIn.serialize, signedInput, serializeScriptCode_eq parses few,
      writeScript]
    rfl
  · have other : index.toNat ≠ nIn.toNat := fun equal =>
      same (UInt32.toNat_inj.mp equal)
    have zero : writeInt32 0 = writeUInt32 0 := by decide
    simp only [CTxIn.serialize, signedInput, ne_eq, same, other, not_false_eq_true,
      if_true, if_false, true_and, zero, apply_ite writeUInt32]
    rfl

theorem serializeOutput_eq
    {nOutput : UInt32} {txout : CTxOut}
    (found : txTo.vout[nOutput.toNat]? = some txout) :
    (CTransactionSignatureSerializer.create txTo scriptCode nIn
        nHashType).serializeOutput nOutput =
      .ok
        (if nHashType &&& 0x1f = SIGHASH_SINGLE ∧ nOutput ≠ nIn then CTxOut.null
          else txout).serialize := by
  simp only [CTransactionSignatureSerializer.serializeOutput,
    CTransactionSignatureSerializer.create, decide_eq_true_eq]
  split_ifs
  · rfl
  · rw [found]
    rfl

theorem writeInputs_eq
    (parses : Parses scriptCode) (few : separators scriptCode < 2 ^ 32)
    (inside : nIn.toNat < txTo.vin.length) (fits : txTo.vin.length < 2 ^ 32) :
    (CTransactionSignatureSerializer.create txTo scriptCode nIn
        nHashType).nInputs.toNat =
      (signedTransaction scriptCode txTo nIn nHashType).vin.length ∧
    (List.range (CTransactionSignatureSerializer.create txTo scriptCode nIn
        nHashType).nInputs.toNat).mapM (fun nInput =>
          (CTransactionSignatureSerializer.create txTo scriptCode nIn
            nHashType).serializeInput (UInt32.ofNat nInput)) =
      .ok ((signedTransaction scriptCode txTo nIn nHashType).vin.map
        CTxIn.serialize) := by
  by_cases only : nHashType &&& SIGHASH_ANYONECANPAY ≠ 0
  · have found := List.getElem?_eq_getElem inside
    have vin : (signedTransaction scriptCode txTo nIn nHashType).vin =
        [signedInput scriptCode nIn nHashType nIn.toNat txTo.vin[nIn.toNat]] := by
      rw [signedTransaction, if_pos only, found]
      rfl
    have count : (CTransactionSignatureSerializer.create txTo scriptCode nIn
        nHashType).nInputs.toNat = 1 := by
      rw [CTransactionSignatureSerializer.nInputs,
        CTransactionSignatureSerializer.create]
      dsimp only
      rw [if_pos (decide_eq_true only)]
      rfl
    have first := @serializeInput_eq scriptCode txTo nIn nHashType parses few
      (UInt32.ofNat 0) _ (by rw [if_pos only]; exact found)
    rw [if_pos only] at first
    rw [vin, count]
    refine ⟨rfl, ?_⟩
    rw [List.range_one, List.mapM_cons, first]
    rfl
  · have vin : (signedTransaction scriptCode txTo nIn nHashType).vin =
        txTo.vin.mapIdx (signedInput scriptCode nIn nHashType) := by
      rw [signedTransaction, if_neg only]
    have count : (CTransactionSignatureSerializer.create txTo scriptCode nIn
        nHashType).nInputs.toNat = txTo.vin.length := by
      rw [CTransactionSignatureSerializer.nInputs,
        CTransactionSignatureSerializer.create]
      dsimp only
      rw [if_neg (by simpa using only)]
      exact UInt32.toNat_ofNat_of_lt' fits
    have length : ((txTo.vin.mapIdx (signedInput scriptCode nIn nHashType)).map
        CTxIn.serialize).length = txTo.vin.length := by
      simp
    have written := @mapM_range _ (fun nInput =>
      (CTransactionSignatureSerializer.create txTo scriptCode nIn
        nHashType).serializeInput (UInt32.ofNat nInput))
      ((txTo.vin.mapIdx (signedInput scriptCode nIn nHashType)).map
        CTxIn.serialize) (by
          intro i isInput
          rw [length] at isInput
          have index : (UInt32.ofNat i).toNat = i :=
            UInt32.toNat_ofNat_of_lt' (isInput.trans fits)
          have each := @serializeInput_eq scriptCode txTo nIn nHashType parses
            few (UInt32.ofNat i) txTo.vin[i]
            (by rw [if_neg only, index]; exact List.getElem?_eq_getElem isInput)
          rw [if_neg only, index] at each
          rw [each, List.getElem_map, List.getElem_mapIdx])
    rw [vin, count, List.length_mapIdx, ← length]
    exact ⟨rfl, written⟩

theorem nOutputs_eq
    (single : nHashType &&& 0x1f = SIGHASH_SINGLE →
      nIn.toNat < txTo.vout.length)
    (last : nIn.toNat + 1 < 2 ^ 32) (fits : txTo.vout.length < 2 ^ 32) :
    (CTransactionSignatureSerializer.create txTo scriptCode nIn
        nHashType).nOutputs.toNat =
      (signedOutputs txTo.vout nIn nHashType).length := by
  rw [CTransactionSignatureSerializer.nOutputs,
    CTransactionSignatureSerializer.create, signedOutputs]
  simp only [decide_eq_true_eq]
  split_ifs with isNone isSingle
  · rfl
  · have inside := single isSingle
    rw [List.length_mapIdx, List.length_take, toNat_add_one last]
    omega
  · exact UInt32.toNat_ofNat_of_lt' fits

theorem serializeOutput_signed
    {i : Nat} {txout : CTxOut} (small : i < 2 ^ 32)
    (found : (signedOutputs txTo.vout nIn nHashType)[i]? = some txout) :
    (CTransactionSignatureSerializer.create txTo scriptCode nIn
        nHashType).serializeOutput (UInt32.ofNat i) = .ok txout.serialize := by
  have index : (UInt32.ofNat i).toNat = i := UInt32.toNat_ofNat_of_lt' small
  rw [signedOutputs] at found
  split_ifs at found with isNone isSingle
  · cases found
  · rw [List.getElem?_mapIdx] at found
    rcases Option.map_eq_some_iff.mp found with ⟨original, isOriginal, rfl⟩
    rw [List.getElem?_take] at isOriginal
    split_ifs at isOriginal with inside
    rw [serializeOutput_eq (by rw [index]; exact isOriginal)]
    have other : UInt32.ofNat i ≠ nIn ↔ i < nIn.toNat := by
      rw [Ne, ← UInt32.toNat_inj, index]
      omega
    simp only [isSingle, other, true_and]
  · rw [serializeOutput_eq (by rw [index]; exact found),
      if_neg (fun isNull => isSingle isNull.1)]

theorem writeOutputs_eq
    (single : nHashType &&& 0x1f = SIGHASH_SINGLE →
      nIn.toNat < txTo.vout.length)
    (last : nIn.toNat + 1 < 2 ^ 32) (fits : txTo.vout.length < 2 ^ 32) :
    (List.range (CTransactionSignatureSerializer.create txTo scriptCode nIn
        nHashType).nOutputs.toNat).mapM (fun nOutput =>
          (CTransactionSignatureSerializer.create txTo scriptCode nIn
            nHashType).serializeOutput (UInt32.ofNat nOutput)) =
      .ok ((signedOutputs txTo.vout nIn nHashType).map CTxOut.serialize) := by
  have length :
      ((signedOutputs txTo.vout nIn nHashType).map CTxOut.serialize).length =
        (signedOutputs txTo.vout nIn nHashType).length :=
    List.length_map _
  have count := @nOutputs_eq scriptCode txTo nIn nHashType single last fits
  have few := (CTransactionSignatureSerializer.create txTo scriptCode nIn
    nHashType).nOutputs.toNat_lt
  rw [count, ← length]
  refine mapM_range _ ?_
  intro i isOutput
  rw [length] at isOutput
  rw [List.getElem_map]
  exact serializeOutput_signed (by omega) (List.getElem?_eq_getElem isOutput)

/-- The streaming version hashes the signed transaction. -/
theorem signatureHash_eq
    (parses : Parses scriptCode) (few : separators scriptCode < 2 ^ 32)
    (inside : nIn.toNat < txTo.vin.length)
    (single : nHashType &&& 0x1f = SIGHASH_SINGLE →
      nIn.toNat < txTo.vout.length)
    (fewIn : txTo.vin.length < 2 ^ 32) (fewOut : txTo.vout.length < 2 ^ 32) :
    signatureHash scriptCode txTo nIn nHashType =
      .ok (.hash
        ((signedTransaction scriptCode txTo nIn nHashType).serialize ++
          writeInt32 nHashType)) := by
  have vin := @writeInputs_eq scriptCode txTo nIn nHashType parses few inside
    fewIn
  have vout := @writeOutputs_eq scriptCode txTo nIn nHashType single (by omega)
    fewOut
  have count := @nOutputs_eq scriptCode txTo nIn nHashType single (by omega)
    fewOut
  have serialized :
      (CTransactionSignatureSerializer.create txTo scriptCode nIn
          nHashType).serialize =
        .ok (signedTransaction scriptCode txTo nIn nHashType).serialize := by
    have size :
        UInt64.ofNat (signedTransaction scriptCode txTo nIn
            nHashType).vout.length =
          (CTransactionSignatureSerializer.create txTo scriptCode nIn
            nHashType).nOutputs.toUInt64 := by
      rw [← UInt64.ofNat_uInt32ToNat, count]
      rfl
    rw [CTransactionSignatureSerializer.serialize, vin.2]
    dsimp only [bind, Except.bind]
    rw [vout]
    dsimp only
    rw [CTransaction.serialize, writeVector, writeVector, ← vin.1,
      UInt64.ofNat_uInt32ToNat, size, ← List.flatMap_def, ← List.flatMap_def]
    rfl
  rw [signatureHash, if_neg (not_le.mpr inside),
    if_neg (fun missing => absurd (single missing.1) (not_lt.mpr missing.2)),
    serialized]
  rfl

/--
Both versions return 1 in the same cases, and otherwise hash the same bytes.
-/
theorem signatureHash_eq_old
    (parses : Parses scriptCode) (few : separators scriptCode < 2 ^ 32)
    (fewIn : txTo.vin.length < 2 ^ 32) (fewOut : txTo.vout.length < 2 ^ 32)
    (nIn : UInt32) (nHashType : Int32) :
    ∃ result, signatureHash scriptCode txTo nIn nHashType = .ok result ∧
      signatureHashOld scriptCode txTo nIn nHashType = .ok result ∧
      (result = .one ↔ txTo.vin.length ≤ nIn.toNat ∨
        nHashType &&& 0x1f = SIGHASH_SINGLE ∧
          txTo.vout.length ≤ nIn.toNat) := by
  by_cases outside : txTo.vin.length ≤ nIn.toNat
  · refine ⟨.one, ?_, ?_, iff_of_true rfl (Or.inl outside)⟩
    · rw [signatureHash, if_pos outside]
      rfl
    · rw [signatureHashOld, if_pos outside]
      rfl
  by_cases missing : nHashType &&& 0x1f = SIGHASH_SINGLE ∧
      txTo.vout.length ≤ nIn.toNat
  · refine ⟨.one, ?_, ?_, iff_of_true rfl (Or.inr missing)⟩
    · rw [signatureHash, if_neg outside, if_pos missing]
      rfl
    · have both : SIGHASH_SINGLE ≠ SIGHASH_NONE := by decide
      rw [signatureHashOld, if_neg outside, forEach_eq_ok fewIn]
      dsimp only [bind, Except.bind]
      rw [editOutputs, if_neg (by rw [missing.1]; exact both), if_pos missing.1,
        if_pos missing.2]
      rfl
  · have inside := not_le.mp outside
    have single : nHashType &&& 0x1f = SIGHASH_SINGLE →
        nIn.toNat < txTo.vout.length := fun isSingle =>
      not_le.mp fun short => missing ⟨isSingle, short⟩
    refine ⟨_, signatureHash_eq parses few inside single fewIn fewOut,
      signatureHashOld_eq inside single fewIn, iff_of_false nofun ?_⟩
    exact not_or_intro outside missing

/-- The input of the transactions below. -/
def plainInput : CTxIn := ⟨⟨0, 0⟩, [], 0⟩

def plainTransaction (vin : List CTxIn) (vout : List CTxOut) : CTransaction :=
  ⟨1, vin, vout, 0⟩

/-- A pushed byte `0xab` is followed by a separator. -/
theorem signatureHash_eq_old_pushed :
    ∃ result,
      signatureHash [0x01, 0xab, 0xab, 0xac]
          (plainTransaction [plainInput] [⟨5, []⟩]) 0 0x83 = .ok result ∧
        signatureHashOld [0x01, 0xab, 0xab, 0xac]
          (plainTransaction [plainInput] [⟨5, []⟩]) 0 0x83 = .ok result := by
  have parses : Parses [0x01, 0xab, 0xab, 0xac] :=
    @Parses.cons _ ⟨0x01, [0xab], [0xab, 0xac]⟩ rfl
      (@Parses.cons _ ⟨0xab, [], [0xac]⟩ rfl
        (@Parses.cons _ ⟨0xac, [], []⟩ rfl Parses.nil))
  have few : separators [0x01, 0xab, 0xab, 0xac] < 2 ^ 32 :=
    (separators_le _).trans_lt (by decide)
  rcases signatureHash_eq_old parses few
      (by decide : (plainTransaction [plainInput] [⟨5, []⟩]).vin.length < 2 ^ 32)
      (by decide) 0 0x83 with ⟨result, streamed, copied, -⟩
  exact ⟨result, streamed, copied⟩

/-! ## Counts that do not fit -/

theorem all_ne_single : SIGHASH_ALL &&& 0x1f ≠ SIGHASH_SINGLE := by
  decide

/-- Outputs whose number does not fit are left out. -/
theorem signatureHash_plain
    (scriptCode : CScript) {vout : List CTxOut}
    (wraps : UInt32.ofNat vout.length = 0) :
    signatureHash scriptCode (plainTransaction [plainInput] vout) 0
        SIGHASH_ALL =
      .ok (.hash
        (writeInt32 1 ++
          (writeCompactSize 1 ++
            ([writeUint256 0 ++ writeUInt32 0 ++ serializeScriptCode scriptCode ++
              writeUInt32 0].flatten)) ++
          (writeCompactSize 0 ++ []) ++ writeUInt32 0 ++
          writeInt32 SIGHASH_ALL)) := by
  have count :
      (CTransactionSignatureSerializer.create (plainTransaction [plainInput] vout)
        scriptCode 0 SIGHASH_ALL).nOutputs = 0 :=
    wraps
  have inside : ¬ (plainTransaction [plainInput] vout).vin.length ≤
      (0 : UInt32).toNat :=
    Nat.not_succ_le_zero 0
  rw [signatureHash, if_neg inside, if_neg (fun missing => all_ne_single missing.1),
    CTransactionSignatureSerializer.serialize, count]
  rfl

theorem signatureHash_noInputs
    {vin : List CTxIn} (wraps : UInt32.ofNat vin.length = 0)
    (inside : 0 < vin.length) :
    ∃ result,
      signatureHash [] (plainTransaction vin []) 0 SIGHASH_ALL = .ok result := by
  have count :
      (CTransactionSignatureSerializer.create (plainTransaction vin []) [] 0
        SIGHASH_ALL).nInputs = 0 :=
    wraps
  have some : ¬ (plainTransaction vin []).vin.length ≤ (0 : UInt32).toNat :=
    not_le.mpr inside
  rw [signatureHash, if_neg some, if_neg (fun missing => all_ne_single missing.1),
    CTransactionSignatureSerializer.serialize, count]
  exact ⟨_, rfl⟩

theorem signatureHashOld_plain (scriptCode : CScript) (vout : List CTxOut) :
    signatureHashOld scriptCode (plainTransaction [plainInput] vout) 0
        SIGHASH_ALL =
      .ok (.hash
        (writeInt32 1 ++
          (writeCompactSize 1 ++
            ([writeUint256 0 ++ writeUInt32 0 ++
              writeScript (withoutSeparators scriptCode) ++
              writeUInt32 0].flatten)) ++
          writeVector CTxOut.serialize vout ++ writeUInt32 0 ++
          writeInt32 SIGHASH_ALL)) := by
  have inside : (0 : UInt32).toNat <
      (plainTransaction [plainInput] vout).vin.length :=
    Nat.zero_lt_one
  have few : (plainTransaction [plainInput] vout).vin.length < 2 ^ 32 :=
    Nat.one_lt_two_pow (by decide)
  rw [signatureHashOld_eq inside (fun isSingle => absurd isSingle all_ne_single)
    few]
  rfl

theorem parses_replicate (count : Nat) :
    Parses (List.replicate count OP_CODESEPARATOR) ∧
      withoutSeparators (List.replicate count OP_CODESEPARATOR) = [] := by
  induction count with
  | zero => exact ⟨Parses.nil, withoutSeparators_stop rfl⟩
  | succ count inductionHypothesis =>
      have parsed := getOp2_separator (List.replicate count OP_CODESEPARATOR)
      rw [List.replicate_succ, withoutSeparators_op parsed, if_pos rfl]
      exact ⟨Parses.cons parsed inductionHypothesis.1, inductionHypothesis.2⟩

theorem manyOutputs_ne
    {vout : List CTxOut} (wraps : UInt32.ofNat vout.length = 0)
    (some : UInt64.ofNat vout.length ≠ 0) :
    signatureHash [] (plainTransaction [plainInput] vout) 0 SIGHASH_ALL ≠
      signatureHashOld [] (plainTransaction [plainInput] vout) 0
        SIGHASH_ALL := by
  intro same
  have code : serializeScriptCode [] = writeScript (withoutSeparators []) := by
    rw [serializeScriptCode_eq Parses.nil (by rw [separators]; decide)]
    rfl
  rw [signatureHash_plain [] wraps, signatureHashOld_plain, code, Except.ok.injEq,
    Uint256OrHash.hash.injEq, List.append_cancel_right_eq,
    List.append_cancel_right_eq, List.append_cancel_left_eq, writeVector] at same
  exact some (selfDelimiting_writeCompactSize 0 _ _ _ same).1.symm

theorem manyInputs_ne
    {vin : List CTxIn} (wraps : UInt32.ofNat vin.length = 0)
    (many : 2 ^ 32 ≤ vin.length) :
    signatureHash [] (plainTransaction vin []) 0 SIGHASH_ALL ≠
      signatureHashOld [] (plainTransaction vin []) 0 SIGHASH_ALL := by
  have inside : ¬ (plainTransaction vin []).vin.length ≤ (0 : UInt32).toNat :=
    not_le.mpr (Nat.lt_of_lt_of_le (by decide) many)
  have endless : signatureHashOld [] (plainTransaction vin []) 0 SIGHASH_ALL =
      .error .unfinished := by
    have big : ¬ (plainTransaction vin []).vin.length < 2 ^ 32 := not_lt.mpr many
    rw [signatureHashOld, if_neg inside, forEach, if_neg big]
    rfl
  rcases signatureHash_noInputs wraps (not_le.mp inside) with ⟨result, ran⟩
  rw [ran, endless]
  exact nofun

theorem manySeparators_ne
    {count : Nat} (wraps : UInt32.ofNat count = 0) (some : UInt64.ofNat count ≠ 0) :
    signatureHash (List.replicate count OP_CODESEPARATOR)
        (plainTransaction [plainInput] []) 0 SIGHASH_ALL ≠
      signatureHashOld (List.replicate count OP_CODESEPARATOR)
        (plainTransaction [plainInput] []) 0 SIGHASH_ALL := by
  intro same
  rcases parses_replicate count with ⟨parses, nothing⟩
  have length := length_withoutSeparators (List.replicate count OP_CODESEPARATOR)
  rw [nothing, List.length_nil, List.length_replicate, Nat.zero_add] at length
  have code : serializeScriptCode (List.replicate count OP_CODESEPARATOR) =
      writeCompactSize (UInt64.ofNat count) ++ [] := by
    rw [serializeScriptCode, countSeparators_eq, length, wraps,
      List.length_replicate, writePieces_eq parses (List.suffix_refl _),
      Nat.sub_self, nothing]
    exact congrArg (fun size => writeCompactSize size ++ []) (UInt64.sub_zero _)
  have tail : writeVector CTxOut.serialize [] = writeCompactSize 0 ++ [] := rfl
  rw [signatureHash_plain _ rfl, signatureHashOld_plain, code, nothing, tail,
    Except.ok.injEq, Uint256OrHash.hash.injEq, List.append_cancel_right_eq,
    List.append_cancel_right_eq, List.append_cancel_right_eq,
    List.append_cancel_left_eq, List.append_cancel_left_eq,
    List.flatten_singleton, List.flatten_singleton, List.append_cancel_right_eq,
    List.append_cancel_left_eq, writeScript] at same
  exact some (selfDelimiting_writeCompactSize _ _ _ _ same).1

theorem ofNat_two_pow :
    UInt32.ofNat (2 ^ 32) = 0 ∧ UInt64.ofNat (2 ^ 32) ≠ 0 := by
  decide

/--
The streaming version keeps the numbers of outputs, inputs and separators in an
`unsigned int`, which 2^32 of them do not fit.
-/
theorem signatureHash_ne_old :
    signatureHash []
        (plainTransaction [plainInput] (List.replicate (2 ^ 32) ⟨0, []⟩)) 0
        SIGHASH_ALL ≠
      signatureHashOld []
        (plainTransaction [plainInput] (List.replicate (2 ^ 32) ⟨0, []⟩)) 0
        SIGHASH_ALL ∧
    signatureHash [] (plainTransaction (List.replicate (2 ^ 32) plainInput) []) 0
        SIGHASH_ALL ≠
      signatureHashOld []
        (plainTransaction (List.replicate (2 ^ 32) plainInput) []) 0
        SIGHASH_ALL ∧
    Parses (List.replicate (2 ^ 32) OP_CODESEPARATOR) ∧
    signatureHash (List.replicate (2 ^ 32) OP_CODESEPARATOR)
        (plainTransaction [plainInput] []) 0 SIGHASH_ALL ≠
      signatureHashOld (List.replicate (2 ^ 32) OP_CODESEPARATOR)
        (plainTransaction [plainInput] []) 0 SIGHASH_ALL := by
  refine ⟨manyOutputs_ne ?_ ?_, manyInputs_ne ?_ ?_, (parses_replicate _).1,
    manySeparators_ne ofNat_two_pow.1 ofNat_two_pow.2⟩
  · rw [List.length_replicate]
    exact ofNat_two_pow.1
  · rw [List.length_replicate]
    exact ofNat_two_pow.2
  · rw [List.length_replicate]
    exact ofNat_two_pow.1
  · rw [List.length_replicate]

end DSValue.Script.SignatureHash
