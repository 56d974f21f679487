import DSValue.Core.CoinsCodec

/-!
# What the stored form keeps

Amounts, scripts and coins come back from their compressed form as they were.
The size of a script and the sizes that `GetSerializeSize` returns have 32
bits, so that longer scripts are lost and the sizes are those of the written
bytes without the higher bits.
-/

namespace DSValue.Core.StoredSize

open DSValue.Lib.Stream
open DSValue.Core.Serialize
open DSValue.Core.Deserialize
open DSValue.Core.VarInt
open DSValue.Core.Transaction
open DSValue.Core.Compress
open DSValue.Core.CoinsCodec
open DSValue.Script.Scan

/-! ## Sizes -/

/-- `CScriptCompressor::GetSerializeSize`. -/
def scriptSize (keys : PubKeyOps) (script : CScript) : Nat :=
  match compress keys script with
  | some compr => compr.length % 2 ^ 32
  | none =>
      (script.length +
        getSizeOfVarInt ((script.length + nSpecialScripts) % 2 ^ 32)) % 2 ^ 32

/-- `CTxOutCompressor::GetSerializeSize`. -/
def txOutSize (keys : PubKeyOps) (txout : CTxOut) : Nat :=
  (getSizeOfVarInt (compressAmount txout.nValue.toBitVec.toNat) +
    scriptSize keys txout.scriptPubKey) % 2 ^ 32

/-- `CCoins::GetSerializeSize`. -/
def coinsSize (keys : PubKeyOps) (coins : CCoins) : Nat :=
  (getSizeOfVarInt32 coins.nVersion +
    getSizeOfVarInt (headerCode coins % 2 ^ 32) + (calcMaskSize coins).1 +
    ((coins.vout.filter fun txout => !txout.isNull).map
      (txOutSize keys)).sum +
    getSizeOfVarInt32 coins.nHeight) % 2 ^ 32

theorem scriptSize_eq (keys : PubKeyOps) (script : CScript) :
    scriptSize keys script =
      (writeCompressedScript keys script).length % 2 ^ 32 := by
  rw [scriptSize, writeCompressedScript]
  cases compress keys script with
  | some compr => rfl
  | none =>
      rw [List.length_append,
        length_writeVarInt (by decide) (Nat.mod_lt _ (by decide)),
        Nat.add_comm]

theorem txOutSize_eq (keys : PubKeyOps) (txout : CTxOut) :
    txOutSize keys txout =
      (writeCompressedTxOut keys txout).length % 2 ^ 32 := by
  rw [txOutSize, writeCompressedTxOut, scriptSize_eq, List.length_append,
    length_writeVarInt (by decide) (compressAmount_lt _), Nat.add_mod_mod]

theorem sum_txOutSize (keys : PubKeyOps) (vout : List CTxOut) :
    (vout.map (txOutSize keys)).sum % 2 ^ 32 =
      (vout.flatMap (writeCompressedTxOut keys)).length % 2 ^ 32 := by
  induction vout with
  | nil => rfl
  | cons txout vout inductionHypothesis =>
      rw [List.map_cons, List.sum_cons, List.flatMap_cons, List.length_append,
        Nat.add_mod, inductionHypothesis, txOutSize_eq, Nat.mod_mod,
        ← Nat.add_mod]

/-- The size of coins is that of their bytes in 32 bits. -/
theorem coinsSize_eq (keys : PubKeyOps) (coins : CCoins) :
    coinsSize keys coins = (writeCoins keys coins).length % 2 ^ 32 := by
  have outputs :=
    sum_txOutSize keys (coins.vout.filter fun txout => !txout.isNull)
  rw [coinsSize, writeCoins]
  simp only [List.length_append, length_writeVarInt32,
    length_writeVarInt (show 0 < 32 by decide)
      (Nat.mod_lt (headerCode coins) (show 0 < 2 ^ 32 by decide))]
  rw [calcMaskSize]
  omega

/-- Coins come back from their stored form, whose size is returned. -/
theorem storedCoins
    (keys : PubKeyOps) (recovers : keys.Recovers) (coins : CCoins)
    (codable : Codable coins) :
    Reads (readCoins keys) (writeCoins keys coins) coins ∧
      coinsSize keys coins = (writeCoins keys coins).length % 2 ^ 32 :=
  ⟨reads_readCoins_of_codable recovers codable, coinsSize_eq keys coins⟩

/-! ## Amounts -/

/-- What `CompressAmount` returns without a limit on its bits. -/
def compressedValue (nAmount : Nat) : Nat :=
  if nAmount = 0 then 0
  else
    let n := (stripZeros 9 nAmount).1
    let e := (stripZeros 9 nAmount).2
    if e < 9 then 1 + (n / 10 * 9 + n % 10 - 1) * 10 + e
    else 1 + (n - 1) * 10 + 9

theorem compressAmount_eq_mod (nAmount : Nat) :
    compressAmount nAmount = compressedValue nAmount % 2 ^ 64 := by
  rw [compressAmount, compressedValue]
  split_ifs
  · rfl
  · dsimp only
    split_ifs <;> rfl

theorem compressedValue_lt
    {nAmount : Nat} (small : nAmount < 2 ^ 60) :
    compressedValue nAmount < 2 ^ 64 := by
  have left := stripZeros_le 9 nAmount
  rw [compressedValue]
  split_ifs with isZero
  · decide
  · rcases stripZeros_spec 9 (Nat.pos_of_ne_zero isZero) with ⟨-, bounded, -⟩
    dsimp only
    split_ifs <;> omega

theorem lt_of_le_maxMoney
    {nAmount : Nat} (range : nAmount ≤ MAX_MONEY.toInt.toNat) :
    nAmount < 2 ^ 60 := by
  have maximum : MAX_MONEY.toInt.toNat = 5200000000000000 := by decide
  omega

/-- Amounts in range are compressed without overflow and come back. -/
theorem compressAmount_lossless
    {nAmount : Nat} (range : nAmount ≤ MAX_MONEY.toInt.toNat) :
    compressedValue nAmount < 2 ^ 64 ∧
      compressAmount nAmount = compressedValue nAmount ∧
      decompressAmount (compressAmount nAmount) = nAmount := by
  have small := lt_of_le_maxMoney range
  have bounded := compressedValue_lt small
  refine ⟨bounded, ?_, decompressAmount_compressAmount small⟩
  rw [compressAmount_eq_mod, Nat.mod_eq_of_lt bounded]

/-- Compression loses neither amounts in range nor scripts with 32-bit sizes. -/
theorem compression_lossless
    (keys : PubKeyOps) (recovers : keys.Recovers) :
    (∀ nAmount ≤ MAX_MONEY.toInt.toNat,
      compressedValue nAmount < 2 ^ 64 ∧
        compressAmount nAmount = compressedValue nAmount ∧
        decompressAmount (compressAmount nAmount) = nAmount) ∧
    (∀ x, (∃ nAmount ≤ MAX_MONEY.toInt.toNat, compressAmount nAmount = x) →
      compressAmount (decompressAmount x) = x) ∧
    ∀ script : CScript, script.length + nSpecialScripts < 2 ^ 32 →
      Reads (readCompressedScript keys) (writeCompressedScript keys script)
        script := by
  refine ⟨fun nAmount range => compressAmount_lossless range, ?_,
    fun script short => reads_readCompressedScript recovers short⟩
  rintro _ ⟨nAmount, range, rfl⟩
  rw [(compressAmount_lossless range).2.2]

/-! ## A public key -/

/-- The x-coordinate of the generator of the curve. -/
def generatorX : List UInt8 :=
  [0x79, 0xBE, 0x66, 0x7E, 0xF9, 0xDC, 0xBB, 0xAC, 0x55, 0xA0, 0x62, 0x95,
    0xCE, 0x87, 0x0B, 0x07, 0x02, 0x9B, 0xFC, 0xDB, 0x2D, 0xCE, 0x28, 0xD9,
    0x59, 0xF2, 0x81, 0x5B, 0x16, 0xF8, 0x17, 0x98]

/-- The y-coordinate without its last byte. -/
def generatorY : List UInt8 :=
  [0x48, 0x3A, 0xDA, 0x77, 0x26, 0xA3, 0xC4, 0x65, 0x5D, 0xA4, 0xFB, 0xFC,
    0x0E, 0x11, 0x08, 0xA8, 0xFD, 0x17, 0xB4, 0x48, 0xA6, 0x85, 0x54, 0x19,
    0x9C, 0x47, 0xD0, 0x8F, 0xFB, 0x10, 0xD4]

def generatorKey : List UInt8 := 4 :: generatorX ++ generatorY ++ [0xB8]

/-- What `CPubKey` computes with the generator. -/
def generatorKeys : PubKeyOps where
  isFullyValid := fun pubkey => pubkey = generatorKey
  decompress := fun pubkey =>
    if pubkey = 0x02 :: generatorX then some generatorKey else none

theorem recovers_generatorKeys : generatorKeys.Recovers := by
  intro x y last xSize ySize valid
  have isKey : 4 :: x ++ y ++ [last] = generatorKey := of_decide_eq_true valid
  rcases List.append_inj' isKey rfl with ⟨front, isLast⟩
  rcases List.append_inj front (by rw [List.length_cons, xSize]; rfl) with
    ⟨isFront, isY⟩
  rw [List.cons_inj_right] at isFront
  rw [List.singleton_inj] at isLast
  rw [isFront, isY, isLast]
  rfl

/-- A script that pays to the generator. -/
def generatorScript : CScript := 65 :: generatorKey ++ [OP_CHECKSIG]

theorem compression_lossless_generator :
    compressAmount 110397000000 = 993577 ∧
      decompressAmount 993577 = 110397000000 ∧
      Reads (readCompressedScript generatorKeys)
        (writeCompressedScript generatorKeys generatorScript)
        generatorScript := by
  have lossless := compression_lossless generatorKeys recovers_generatorKeys
  have amount := (lossless.1 110397000000 (by decide)).2.2
  have compressed : compressAmount 110397000000 = 993577 := by decide
  rw [compressed] at amount
  exact ⟨compressed, amount, lossless.2.2 generatorScript (by decide)⟩

/-- Coins whose first output is spent. -/
def generatorCoins : CCoins :=
  ⟨true, [CTxOut.null, ⟨110397000000, generatorScript⟩], 120891, 1⟩

theorem codable_generatorCoins : Codable generatorCoins where
  version := by decide
  height := by decide
  outputs := by
    intro txout member
    rcases List.mem_cons.mp member with rfl | last
    · exact Or.inl rfl
    · rw [List.mem_singleton.mp last]
      exact Or.inr ⟨by decide, by decide⟩
  number := by decide
  clean := ⟨_, rfl, by decide⟩

theorem storedCoins_generator :
    Reads (readCoins generatorKeys) (writeCoins generatorKeys generatorCoins)
        generatorCoins ∧
      coinsSize generatorKeys generatorCoins =
        (writeCoins generatorKeys generatorCoins).length % 2 ^ 32 :=
  storedCoins generatorKeys recovers_generatorKeys generatorCoins
    codable_generatorCoins

/-! ## Scripts that are too long -/

/-- The script that pays to the key with the hash zero. -/
def keyHashScript : CScript :=
  [OP_DUP, OP_HASH160, 20] ++ List.replicate 20 0 ++
    [OP_EQUALVERIFY, OP_CHECKSIG]

theorem codable_keyHashCoins :
    Codable ⟨false, [⟨0, keyHashScript⟩], 0, 0⟩ where
  version := le_rfl
  height := le_rfl
  outputs := by
    intro txout member
    rw [List.mem_singleton.mp member]
    exact Or.inr ⟨by decide, by decide⟩
  number := by decide
  clean := ⟨_, rfl, rfl⟩

theorem writeCoins_single
    {keys : PubKeyOps} {txout : CTxOut} (left : txout.isNull = false) :
    writeCoins keys ⟨false, [txout], 0, 0⟩ =
      [0, 2] ++ writeCompressedTxOut keys txout ++ [0] := by
  have flags : availability ⟨false, [txout], 0, 0⟩ = [true] := by
    rw [availability, List.map_cons, left]
    rfl
  have kept : [txout].filter (fun txout => !txout.isNull) = [txout] := by
    rw [List.filter_cons, left]
    rfl
  simp only [writeCoins, headerCode, usedBytes, calcMaskSize, spentnessBytes,
    flags, kept, List.flatMap_cons, List.flatMap_nil, List.append_nil]
  rfl

section Long

variable {keys : PubKeyOps} {n : Nat} (wraps : n + nSpecialScripts = 2 ^ 32)

include wraps

/-- The size of the script is written as zero. -/
theorem writeCompressedScript_long :
    writeCompressedScript keys (List.replicate n 0) =
      0 :: List.replicate n 0 := by
  have special : nSpecialScripts = 6 := rfl
  have plain : compress keys (List.replicate n 0) = none := by
    have toKeyID : isToKeyID (List.replicate n 0) = none := by
      rw [isToKeyID, if_neg]
      rintro ⟨size, -⟩
      rw [List.length_replicate] at size
      omega
    have toScriptID : isToScriptID (List.replicate n 0) = none := by
      rw [isToScriptID, if_neg]
      rintro ⟨size, -⟩
      rw [List.length_replicate] at size
      omega
    have toPubKey : isToPubKey keys (List.replicate n 0) = none := by
      rw [isToPubKey, if_neg, if_neg]
      · rintro ⟨size, -⟩
        rw [List.length_replicate] at size
        omega
      · rintro ⟨size, -⟩
        rw [List.length_replicate] at size
        omega
    rw [compress, toKeyID, toScriptID, toPubKey]
  rw [writeCompressedScript, plain, List.length_replicate, wraps, Nat.mod_self]
  rfl

/-- The front of the script is read as the hash of a key. -/
theorem writeCompressedScript_long_front :
    writeCompressedScript keys (List.replicate n 0) =
      (0 :: List.replicate 20 0) ++ List.replicate (n - 20) 0 := by
  have special : nSpecialScripts = 6 := rfl
  rw [writeCompressedScript_long wraps, List.cons_append,
    List.replicate_append_replicate, Nat.add_sub_cancel' (by omega)]

theorem not_reads_long :
    ¬ Reads (readCompressedScript keys)
      (writeCompressedScript keys (List.replicate n 0))
      (List.replicate n 0) := by
  have special : nSpecialScripts = 6 := rfl
  intro reads
  have whole := reads.done
  have front :=
    @reads_special keys 0 (List.replicate 20 0) _ (by decide) rfl rfl
      (List.replicate (n - 20) 0)
  rw [writeCompressedScript_long_front wraps, front] at whole
  have left : List.replicate (n - 20) (0 : UInt8) = [] :=
    (Prod.mk.inj (Except.ok.inj whole)).2
  rw [List.replicate_eq_nil_iff] at left
  omega

/-- The bytes of coins with such a script start with those of other coins. -/
theorem writeCoins_long :
    writeCoins keys ⟨false, [⟨0, List.replicate n 0⟩], 0, 0⟩ =
      writeCoins keys ⟨false, [⟨0, keyHashScript⟩], 0, 0⟩ ++
        List.replicate (n - 20) 0 := by
  have turn :
      List.replicate (n - 20) (0 : UInt8) ++ [0] =
        [0] ++ List.replicate (n - 20) 0 := by
    rw [← List.replicate_succ', List.replicate_succ]
    rfl
  rw [writeCoins_single rfl, writeCoins_single rfl, writeCompressedTxOut,
    writeCompressedTxOut, writeCompressedScript_long_front wraps]
  simp only [List.append_assoc, turn]
  rfl

theorem not_reads_longCoins (recovers : keys.Recovers) :
    ¬ Reads (readCoins keys)
      (writeCoins keys ⟨false, [⟨0, List.replicate n 0⟩], 0, 0⟩)
      ⟨false, [⟨0, List.replicate n 0⟩], 0, 0⟩ := by
  have special : nSpecialScripts = 6 := rfl
  intro reads
  have whole := reads.done
  have front :=
    reads_readCoins_of_codable recovers codable_keyHashCoins
      (List.replicate (n - 20) 0)
  rw [writeCoins_long wraps, front] at whole
  have left : List.replicate (n - 20) (0 : UInt8) = [] :=
    (Prod.mk.inj (Except.ok.inj whole)).2
  rw [List.replicate_eq_nil_iff] at left
  omega

end Long

/-- A script of zeros that is too long comes back as one that pays to a key. -/
theorem longScript_lost :
    ∃ script : CScript,
      ¬ Reads (readCompressedScript generatorKeys)
        (writeCompressedScript generatorKeys script) script :=
  ⟨List.replicate (2 ^ 32 - 6) 0, not_reads_long (by decide)⟩

/-- Coins with an unspent output of such a script are not read back. -/
theorem longCoins_lost :
    ∃ coins : CCoins,
      0 ≤ coins.nVersion ∧ 0 ≤ coins.nHeight ∧
      (∀ txout ∈ coins.vout, moneyRange txout.nValue = true) ∧
      (∃ last, coins.vout.getLast? = some last ∧ last.isNull = false) ∧
      ¬ Reads (readCoins generatorKeys) (writeCoins generatorKeys coins)
        coins := by
  refine ⟨⟨false, [⟨0, List.replicate (2 ^ 32 - 6) 0⟩], 0, 0⟩, le_rfl, le_rfl,
    ?_, ⟨_, rfl, rfl⟩,
    not_reads_longCoins (by decide) recovers_generatorKeys⟩
  intro txout member
  rw [List.mem_singleton.mp member]
  rfl

end DSValue.Core.StoredSize
