import DSValue.Core.Transaction
import DSValue.Core.VarInt

/-!
# Compressed outputs

The set of unspent outputs and the undo data hold outputs in compressed form.
An amount is written with the number of its trailing zeros in one decimal
digit.  A script of one of the usual forms is written as a number below six
and the twenty or thirty-two bytes that vary; every other script as its size
plus six and its bytes.

Public keys are curve points.  What `CPubKey` computes with them is a
parameter, and decompressing the x-coordinate and the parity of a valid key is
taken to give the key.
-/

namespace DSValue.Core.Compress

open DSValue.Lib.Stream
open DSValue.Core.Serialize
open DSValue.Core.Deserialize
open DSValue.Core.VarInt
open DSValue.Core.Transaction
open DSValue.Script.Scan

/-! ## Amounts -/

/-- The loop of `CompressAmount`: what is left and how often it divided. -/
def stripZeros : (limit n : Nat) → Nat × Nat
  | 0, n => (n, 0)
  | limit + 1, n =>
      if n % 10 = 0 then
        ((stripZeros limit (n / 10)).1, (stripZeros limit (n / 10)).2 + 1)
      else (n, 0)

/-- `CTxOutCompressor::CompressAmount`. -/
def compressAmount (nAmount : Nat) : Nat :=
  if nAmount = 0 then 0
  else
    let n := (stripZeros 9 nAmount).1
    let e := (stripZeros 9 nAmount).2
    if e < 9 then (1 + (n / 10 * 9 + n % 10 - 1) * 10 + e) % 2 ^ 64
    else (1 + (n - 1) * 10 + 9) % 2 ^ 64

/-- `CTxOutCompressor::DecompressAmount`. -/
def decompressAmount (x : Nat) : Nat :=
  if x = 0 then 0
  else
    let e := (x - 1) % 10
    let rest := (x - 1) / 10
    let n := if e < 9 then rest / 9 * 10 + (rest % 9 + 1) else rest + 1
    n * 10 ^ e % 2 ^ 64

theorem stripZeros_spec (limit : Nat) {n : Nat} (positive : 0 < n) :
    (stripZeros limit n).1 * 10 ^ (stripZeros limit n).2 = n ∧
      (stripZeros limit n).2 ≤ limit ∧
      ((stripZeros limit n).2 < limit → (stripZeros limit n).1 % 10 ≠ 0) := by
  induction limit generalizing n with
  | zero => simp [stripZeros]
  | succ limit inductionHypothesis =>
      rw [stripZeros]
      split_ifs with divisible
      · rcases inductionHypothesis (show 0 < n / 10 by omega) with
          ⟨product, bounded, stopped⟩
        refine ⟨?_, by omega, fun below => stopped (by omega)⟩
        rw [Nat.pow_succ, ← Nat.mul_assoc, product]
        omega
      · exact ⟨by simp, by omega, fun _ => divisible⟩

theorem stripZeros_le (limit n : Nat) : (stripZeros limit n).1 ≤ n := by
  induction limit generalizing n with
  | zero => exact le_rfl
  | succ limit inductionHypothesis =>
      rw [stripZeros]
      split_ifs
      · exact le_trans (inductionHypothesis (n / 10)) (Nat.div_le_self n 10)
      · exact le_rfl

/-- Amounts far above the money supply survive the compression. -/
theorem decompressAmount_compressAmount
    {nAmount : Nat} (small : nAmount < 2 ^ 60) :
    decompressAmount (compressAmount nAmount) = nAmount := by
  by_cases isZero : nAmount = 0
  · rw [compressAmount, if_pos isZero, decompressAmount, if_pos rfl, isZero]
  rcases stripZeros_spec 9 (Nat.pos_of_ne_zero isZero) with
    ⟨product, bounded, stopped⟩
  have left := stripZeros_le 9 nAmount
  have positive : 0 < (stripZeros 9 nAmount).1 := by
    by_contra none
    rw [Nat.le_zero.mp (not_lt.mp none), Nat.zero_mul] at product
    exact isZero product.symm
  rw [compressAmount, if_neg isZero]
  revert product bounded stopped left positive
  generalize (stripZeros 9 nAmount).1 = n
  generalize (stripZeros 9 nAmount).2 = e
  intro product bounded stopped left positive
  have value : n * 10 ^ e % 2 ^ 64 = nAmount := by
    rw [product]
    exact Nat.mod_eq_of_lt (by omega)
  simp only
  split_ifs with few
  · have digit := stopped few
    rw [Nat.mod_eq_of_lt (by omega), decompressAmount, if_neg (by omega)]
    have exponent : (1 + (n / 10 * 9 + n % 10 - 1) * 10 + e - 1) % 10 = e := by
      omega
    have rest :
        (1 + (n / 10 * 9 + n % 10 - 1) * 10 + e - 1) / 10 =
          n / 10 * 9 + n % 10 - 1 := by
      omega
    have digits :
        (n / 10 * 9 + n % 10 - 1) / 9 * 10 +
          ((n / 10 * 9 + n % 10 - 1) % 9 + 1) = n := by
      omega
    simp only [exponent, rest, if_pos few, digits, value]
  · have nine : e = 9 := by omega
    rw [Nat.mod_eq_of_lt (by omega), decompressAmount, if_neg (by omega)]
    have exponent : (1 + (n - 1) * 10 + 9 - 1) % 10 = 9 := by omega
    have rest : (1 + (n - 1) * 10 + 9 - 1) / 10 = n - 1 := by omega
    simp only [exponent, rest, lt_irrefl, if_false]
    rw [Nat.sub_add_cancel positive, ← nine, value]

theorem compressAmount_lt (nAmount : Nat) : compressAmount nAmount < 2 ^ 64 := by
  rw [compressAmount]
  split_ifs
  · decide
  · simp only
    split_ifs <;> exact Nat.mod_lt _ (by decide)

/-! ## Scripts -/

/-- What `CPubKey` computes with curve points. -/
structure PubKeyOps where
  isFullyValid : List UInt8 → Bool
  decompress : List UInt8 → Option (List UInt8)

/--
`CPubKey::Decompress` finds the point with the given x-coordinate and parity.
-/
def PubKeyOps.Recovers (keys : PubKeyOps) : Prop :=
  ∀ x y : List UInt8, ∀ last : UInt8, x.length = 32 → y.length = 31 →
    keys.isFullyValid (4 :: x ++ y ++ [last]) = true →
      keys.decompress ((0x02 ||| (last &&& 0x01)) :: x) =
        some (4 :: x ++ y ++ [last])

/-- `CScriptCompressor::IsToKeyID`. -/
def isToKeyID (script : CScript) : Option (List UInt8) :=
  if script.length = 25 ∧ script.take 3 = [OP_DUP, OP_HASH160, 20] ∧
      script.drop 23 = [OP_EQUALVERIFY, OP_CHECKSIG] then
    some ((script.drop 3).take 20)
  else none

/-- `CScriptCompressor::IsToScriptID`. -/
def isToScriptID (script : CScript) : Option (List UInt8) :=
  if script.length = 23 ∧ script.take 2 = [OP_HASH160, 20] ∧
      script.drop 22 = [OP_EQUAL] then
    some ((script.drop 2).take 20)
  else none

/-- `CScriptCompressor::IsToPubKey`. -/
def isToPubKey (keys : PubKeyOps) (script : CScript) : Option (List UInt8) :=
  if script.length = 35 ∧ script.take 1 = [33] ∧
      script.drop 34 = [OP_CHECKSIG] ∧
      (script[1]? = some 0x02 ∨ script[1]? = some 0x03) then
    some ((script.drop 1).take 33)
  else if script.length = 67 ∧ script.take 1 = [65] ∧
      script.drop 66 = [OP_CHECKSIG] ∧ script[1]? = some 0x04 ∧
      keys.isFullyValid ((script.drop 1).take 65) then
    some ((script.drop 1).take 65)
  else none

/-- The first byte of a compressed public key script. -/
def pubKeyMarker (pubkey : List UInt8) : UInt8 :=
  if pubkey.head? = some 0x04 then 0x04 ||| (pubkey.getD 64 0 &&& 0x01)
  else pubkey.headD 0

/-- `CScriptCompressor::Compress`. -/
def compress (keys : PubKeyOps) (script : CScript) : Option (List UInt8) :=
  match isToKeyID script with
  | some keyID => some (0x00 :: keyID)
  | none =>
      match isToScriptID script with
      | some scriptID => some (0x01 :: scriptID)
      | none =>
          match isToPubKey keys script with
          | some pubkey =>
              some (pubKeyMarker pubkey :: (pubkey.drop 1).take 32)
          | none => none

/-- `CScriptCompressor::GetSpecialSize`. -/
def getSpecialSize (nSize : Nat) : Nat :=
  if nSize ≤ 1 then 20 else if nSize ≤ 5 then 32 else 0

/-- `CScriptCompressor::Decompress`, into an empty script. -/
def decompress (keys : PubKeyOps) (nSize : Nat) (vch : List UInt8) : CScript :=
  match nSize with
  | 0 => [OP_DUP, OP_HASH160, 20] ++ vch ++ [OP_EQUALVERIFY, OP_CHECKSIG]
  | 1 => [OP_HASH160, 20] ++ vch ++ [OP_EQUAL]
  | 2 => 33 :: 2 :: vch ++ [OP_CHECKSIG]
  | 3 => 33 :: 3 :: vch ++ [OP_CHECKSIG]
  | _ =>
      match keys.decompress (UInt8.ofNat (nSize - 2) :: vch) with
      | some pubkey => 65 :: pubkey ++ [OP_CHECKSIG]
      | none => []

def nSpecialScripts : Nat := 6

/-- `CScriptCompressor::Serialize`. -/
def writeCompressedScript (keys : PubKeyOps) (script : CScript) : List UInt8 :=
  match compress keys script with
  | some compr => compr
  | none =>
      writeVarInt 32 ((script.length + nSpecialScripts) % 2 ^ 32) ++ script

/-- The script behind its size. -/
def readScriptBehind (keys : PubKeyOps) (nSize : Nat) : Reader CScript :=
  if nSize < nSpecialScripts then do
    let vch ← readBytes (getSpecialSize nSize)
    pure (decompress keys nSize vch)
  else readBytes (nSize - nSpecialScripts)

/-- `CScriptCompressor::Unserialize`. -/
def readCompressedScript (keys : PubKeyOps) : Reader CScript := do
  let nSize ← readVarInt 32
  readScriptBehind keys nSize

theorem reads_special
    {keys : PubKeyOps} {marker : UInt8} {vch : List UInt8} {script : CScript}
    (special : marker.toNat < nSpecialScripts)
    (size : vch.length = getSpecialSize marker.toNat)
    (restores : decompress keys marker.toNat vch = script) :
    Reads (readCompressedScript keys) (marker :: vch) script := by
  intro rest
  have byte : marker.toNat < 128 := lt_trans special (by decide)
  have first :
      readVarInt 32 (marker :: (vch ++ rest)) =
        .ok (marker.toNat, vch ++ rest) := by
    have single : Terminated [marker] := ⟨[], marker, rfl, by simp, byte⟩
    have taken := @readVarInt_terminated 32 _ single (vch ++ rest)
    rwa [encodedNumber_singleton, Nat.mod_eq_of_lt byte,
      Nat.mod_eq_of_lt (lt_trans byte (by decide))] at taken
  have body := reads_readBytes vch rest
  rw [size] at body
  rw [List.cons_append, readCompressedScript, bind_of_ok first,
    readScriptBehind, if_pos special, bind_of_ok body, restores]
  rfl

theorem reads_plain
    {keys : PubKeyOps} {script : CScript}
    (short : script.length + nSpecialScripts < 2 ^ 32) :
    Reads (readCompressedScript keys)
      (writeVarInt 32 ((script.length + nSpecialScripts) % 2 ^ 32) ++ script)
      script := by
  rw [Nat.mod_eq_of_lt short]
  refine (reads_readVarInt (by decide) short).bind ?_
  rw [readScriptBehind, if_neg (by omega), Nat.add_sub_cancel]
  exact reads_readBytes script

theorem take_append_take_append_drop
    {α : Type} (values : List α) (first second : Nat) :
    values.take first ++ (values.drop first).take second ++
      values.drop (first + second) = values := by
  rw [← List.drop_drop, List.append_assoc, List.take_append_drop,
    List.take_append_drop]

theorem isToKeyID_eq_some
    {script : CScript} {keyID : List UInt8}
    (found : isToKeyID script = some keyID) :
    keyID.length = 20 ∧
      [OP_DUP, OP_HASH160, 20] ++ keyID ++ [OP_EQUALVERIFY, OP_CHECKSIG] =
        script := by
  rw [isToKeyID] at found
  split_ifs at found with form
  rcases form with ⟨size, front, back⟩
  cases found
  refine ⟨by simp [size], ?_⟩
  rw [← front, ← back]
  exact take_append_take_append_drop script 3 20

theorem isToScriptID_eq_some
    {script : CScript} {scriptID : List UInt8}
    (found : isToScriptID script = some scriptID) :
    scriptID.length = 20 ∧
      [OP_HASH160, 20] ++ scriptID ++ [OP_EQUAL] = script := by
  rw [isToScriptID] at found
  split_ifs at found with form
  rcases form with ⟨size, front, back⟩
  cases found
  refine ⟨by simp [size], ?_⟩
  rw [← front, ← back]
  exact take_append_take_append_drop script 2 20

/-- A script that pays to a public key is its size, the key and the opcode. -/
theorem isToPubKey_eq_some
    {keys : PubKeyOps} {script : CScript} {pubkey : List UInt8}
    (found : isToPubKey keys script = some pubkey) :
    (∃ marker x, (marker = 0x02 ∨ marker = 0x03) ∧ x.length = 32 ∧
        pubkey = marker :: x ∧ 33 :: marker :: x ++ [OP_CHECKSIG] = script) ∨
      ∃ x y last, x.length = 32 ∧ y.length = 31 ∧
        pubkey = 4 :: x ++ y ++ [last] ∧
        keys.isFullyValid (4 :: x ++ y ++ [last]) = true ∧
        65 :: (4 :: x ++ y ++ [last]) ++ [OP_CHECKSIG] = script := by
  rw [isToPubKey] at found
  split_ifs at found with short long
  · rcases short with ⟨size, front, back, parity⟩
    cases found
    rcases script with _ | ⟨first, _ | ⟨marker, rest⟩⟩
    · simp at size
    · simp at size
    have restSize : rest.length = 33 := by simpa using size
    have isFirst : first = 33 := by simpa using front
    have atEnd : rest.drop 32 = [OP_CHECKSIG] := by simpa using back
    left
    refine ⟨marker, rest.take 32, by simpa using parity, by simp [restSize],
      by simp, ?_⟩
    rw [isFirst, ← atEnd, List.cons_append, List.cons_append,
      List.take_append_drop]
  · rcases long with ⟨size, front, back, isLong, valid⟩
    cases found
    rcases script with _ | ⟨first, _ | ⟨marker, rest⟩⟩
    · simp at size
    · simp at size
    have restSize : rest.length = 65 := by simpa using size
    have isFirst : first = 65 := by simpa using front
    have isMarker : marker = 4 := by simpa using isLong
    have atEnd : rest.drop 64 = [OP_CHECKSIG] := by simpa using back
    rcases List.length_eq_one_iff.mp
        (show ((rest.drop 63).take 1).length = 1 by simp [restSize]) with
      ⟨last, isLast⟩
    have key :
        rest.take 32 ++ (rest.drop 32).take 31 ++ [last] = rest.take 64 := by
      have front := take_append_take_append_drop (rest.take 64) 32 31
      rw [List.take_take, List.drop_take, List.take_take, List.drop_take]
        at front
      simpa [isLast] using front
    have pubkey :
        ((first :: marker :: rest).drop 1).take 65 =
          4 :: rest.take 32 ++ (rest.drop 32).take 31 ++ [last] := by
      rw [List.cons_append, List.cons_append, key, isMarker]
      rfl
    right
    refine ⟨rest.take 32, (rest.drop 32).take 31, last, by simp [restSize],
      by simp [restSize], pubkey, ?_, ?_⟩
    · rw [← pubkey]
      exact valid
    · have whole : rest.take 64 ++ [OP_CHECKSIG] = rest := by
        rw [← atEnd, List.take_append_drop]
      have middle :
          4 :: rest.take 32 ++ (rest.drop 32).take 31 ++ [last] =
            4 :: rest.take 64 := by
        rw [← key]
        rfl
      rw [middle, isFirst, isMarker, List.cons_append, List.cons_append,
        whole]

theorem and_one_cases (byte : UInt8) :
    byte &&& 0x01 = 0x00 ∨ byte &&& 0x01 = 0x01 := by
  have value : (byte &&& 0x01).toNat = byte.toNat % 2 := by
    rw [UInt8.toNat_and]
    exact Nat.and_one_is_mod byte.toNat
  rcases Nat.mod_two_eq_zero_or_one byte.toNat with even | odd
  · left
    exact UInt8.toNat_inj.mp (value.trans even)
  · right
    exact UInt8.toNat_inj.mp (value.trans odd)

theorem decompress_point
    {keys : PubKeyOps} {nSize : Nat} {x pubkey : List UInt8}
    (long : nSize = 4 ∨ nSize = 5)
    (point : keys.decompress (UInt8.ofNat (nSize - 2) :: x) = some pubkey) :
    decompress keys nSize x = 65 :: pubkey ++ [OP_CHECKSIG] := by
  rcases long with rfl | rfl
  · simp only [decompress, point]
  · simp only [decompress, point]

/-- `CScriptCompressor` gives every script back. -/
theorem reads_readCompressedScript
    {keys : PubKeyOps} (recovers : keys.Recovers) {script : CScript}
    (short : script.length + nSpecialScripts < 2 ^ 32) :
    Reads (readCompressedScript keys) (writeCompressedScript keys script)
      script := by
  rw [writeCompressedScript, compress]
  cases toKeyID : isToKeyID script with
  | some keyID =>
      rcases isToKeyID_eq_some toKeyID with ⟨size, form⟩
      exact reads_special (by decide) size form
  | none =>
      cases toScriptID : isToScriptID script with
      | some scriptID =>
          rcases isToScriptID_eq_some toScriptID with ⟨size, form⟩
          exact reads_special (by decide) size form
      | none =>
          cases toPubKey : isToPubKey keys script with
          | none => exact reads_plain short
          | some pubkey =>
              rcases isToPubKey_eq_some toPubKey with
                ⟨marker, x, parity, size, isKey, form⟩ |
                  ⟨x, y, last, xSize, ySize, isKey, valid, form⟩
              · have body : (pubkey.drop 1).take 32 = x := by
                  rw [isKey, ← size]
                  simp
                have head : pubKeyMarker pubkey = marker := by
                  rw [isKey]
                  rcases parity with rfl | rfl <;> rfl
                simp only [body, head]
                rcases parity with rfl | rfl
                · exact reads_special (by decide) size form
                · exact reads_special (by decide) size form
              · have body : (pubkey.drop 1).take 32 = x := by
                  rw [isKey, ← xSize]
                  simp
                have head :
                    pubKeyMarker pubkey = 0x04 ||| (last &&& 0x01) := by
                  rw [isKey]
                  simp [pubKeyMarker, xSize, ySize]
                have point := recovers x y last xSize ySize valid
                simp only [body, head]
                rcases and_one_cases last with even | odd
                · rw [even] at point ⊢
                  refine reads_special (by decide) xSize ?_
                  exact (decompress_point (Or.inl rfl) point).trans form
                · rw [odd] at point ⊢
                  refine reads_special (by decide) xSize ?_
                  exact (decompress_point (Or.inr rfl) point).trans form

/-! ## Outputs -/

/-- `CTxOutCompressor`, writing. -/
def writeCompressedTxOut (keys : PubKeyOps) (txout : CTxOut) : List UInt8 :=
  writeVarInt 64 (compressAmount txout.nValue.toBitVec.toNat) ++
    writeCompressedScript keys txout.scriptPubKey

/-- `CTxOutCompressor`, reading. -/
def readCompressedTxOut (keys : PubKeyOps) : Reader CTxOut := do
  let nVal ← readVarInt 64
  let scriptPubKey ← readCompressedScript keys
  pure ⟨Int64.ofBitVec (BitVec.ofNat 64 (decompressAmount nVal)), scriptPubKey⟩

/-- The output has an amount in range and a script with a 32-bit size. -/
structure Compressible (txout : CTxOut) : Prop where
  range : moneyRange txout.nValue = true
  short : txout.scriptPubKey.length + nSpecialScripts < 2 ^ 32

theorem toNat_of_moneyRange {nValue : Int64} (range : moneyRange nValue = true) :
    nValue.toBitVec.toNat < 2 ^ 60 := by
  simp only [moneyRange, decide_eq_true_eq, Int64.le_iff_toInt_le] at range
  rcases range with ⟨nonneg, bounded⟩
  have maximum : MAX_MONEY.toInt = 5200000000000000 := by decide
  have zero : (0 : Int64).toInt = 0 := rfl
  rw [zero] at nonneg
  rw [maximum] at bounded
  have value : (nValue.toBitVec.toNat : Int) = nValue.toInt := by
    rw [← Int64.toInt_toBitVec, BitVec.toInt_eq_toNat_of_lt]
    have isLt := nValue.toBitVec.isLt
    rw [← Int64.toInt_toBitVec, BitVec.toInt_eq_toNat_cond] at nonneg
    split_ifs at nonneg with low
    · exact low
    · omega
  omega

/-- `CTxOutCompressor` gives an output back. -/
theorem reads_readCompressedTxOut
    {keys : PubKeyOps} (recovers : keys.Recovers) {txout : CTxOut}
    (compressible : Compressible txout) :
    Reads (readCompressedTxOut keys) (writeCompressedTxOut keys txout)
      txout := by
  have amount :=
    decompressAmount_compressAmount (toNat_of_moneyRange compressible.range)
  refine (reads_readVarInt (by decide) (compressAmount_lt _)).bind ?_
  rw [← List.append_nil (writeCompressedScript keys txout.scriptPubKey)]
  refine (reads_readCompressedScript recovers compressible.short).bind ?_
  rw [amount, BitVec.ofNat_toNat, BitVec.setWidth_eq]
  exact Reads.pure txout

end DSValue.Core.Compress
