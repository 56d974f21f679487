import DSValue.Core.Serialize
import Mathlib.Tactic.SplitIfs

/-!
# Scanning output scripts

`CScript::GetOp2` reads one operation, and three loops over it decide what an
output is: `GetLottoPoolAddressFromTx` keeps the last push that follows a
hash opcode, the bet scan shared by `GetBetData` and
`CTxOut::GetLottoTxOutType` stops at the first `OP_LOTTO`, and
`IsUnspendable` looks at the first byte only.  A fourth loop counts signature
checks.

The loops run on a bound for the number of operations.  Each operation takes
at least one byte, so the length of the script is always enough, which
`scanLotto_bound`, `poolAddressLoop_bound` and `sigOpLoop_bound` state.
-/

namespace DSValue.Script.Scan

open DSValue.Lib.Encoding
open DSValue.Core.Serialize

/-- A serialized script. -/
abbrev CScript := List UInt8

def OP_PUSHDATA1 : UInt8 := 0x4c
def OP_PUSHDATA2 : UInt8 := 0x4d
def OP_PUSHDATA4 : UInt8 := 0x4e
def OP_1 : UInt8 := 0x51
def OP_16 : UInt8 := 0x60
def OP_RETURN : UInt8 := 0x6a
def OP_DUP : UInt8 := 0x76
def OP_EQUAL : UInt8 := 0x87
def OP_EQUALVERIFY : UInt8 := 0x88
def OP_RIPEMD160 : UInt8 := 0xa6
def OP_SHA1 : UInt8 := 0xa7
def OP_SHA256 : UInt8 := 0xa8
def OP_HASH160 : UInt8 := 0xa9
def OP_HASH256 : UInt8 := 0xaa
def OP_CHECKSIG : UInt8 := 0xac
def OP_CHECKSIGVERIFY : UInt8 := 0xad
def OP_CHECKMULTISIG : UInt8 := 0xae
def OP_CHECKMULTISIGVERIFY : UInt8 := 0xaf
def OP_LOTTO : UInt8 := 0xc1
def OP_LOTTOUNSPEND : UInt8 := 0xc2
def OP_INVALIDOPCODE : UInt8 := 0xff

/-! ## One operation -/

/-- What a successful `GetOp2` leaves: opcode, operand and position. -/
structure ParsedOp where
  opcode : UInt8
  vchRet : List UInt8
  pc : CScript

/-- A length field of `width` bytes, if the script still has them. -/
def readSizeField (width : Nat) (pc : CScript) : Option (Nat × CScript) :=
  if pc.length < width then none
  else some (leValue (pc.take width), pc.drop width)

/-- The operand size of a push opcode and the position of the operand. -/
def readPushSize (opcode : UInt8) (pc : CScript) : Option (Nat × CScript) :=
  if opcode < OP_PUSHDATA1 then some (opcode.toNat, pc)
  else if opcode = OP_PUSHDATA1 then readSizeField 1 pc
  else if opcode = OP_PUSHDATA2 then readSizeField 2 pc
  else readSizeField 4 pc

/-- `CScript::GetOp2`. -/
def getOp2 : CScript → Option ParsedOp
  | [] => none
  | opcode :: pc =>
      if opcode ≤ OP_PUSHDATA4 then
        match readPushSize opcode pc with
        | none => none
        | some (nSize, operand) =>
            if operand.length < nSize then none
            else some ⟨opcode, operand.take nSize, operand.drop nSize⟩
      else some ⟨opcode, [], pc⟩

theorem readSizeField_length
    {width nSize : Nat} {pc operand : CScript}
    (read : readSizeField width pc = some (nSize, operand)) :
    operand.length ≤ pc.length := by
  rw [readSizeField] at read
  split_ifs at read
  cases read
  simp

theorem readPushSize_length
    {opcode : UInt8} {nSize : Nat} {pc operand : CScript}
    (read : readPushSize opcode pc = some (nSize, operand)) :
    operand.length ≤ pc.length := by
  rw [readPushSize] at read
  split_ifs at read
  · cases read
    exact le_rfl
  all_goals exact readSizeField_length read

/-- Reading an operation moves forward. -/
theorem getOp2_length
    {script : CScript} {op : ParsedOp}
    (parsed : getOp2 script = some op) :
    op.pc.length < script.length := by
  cases script with
  | nil => simp [getOp2] at parsed
  | cons opcode pc =>
      rw [getOp2] at parsed
      split_ifs at parsed
      · split at parsed
        · simp at parsed
        · rename_i nSize operand read
          split_ifs at parsed
          cases parsed
          have shorter := readPushSize_length read
          simp only [List.length_drop, List.length_cons]
          omega
      · cases parsed
        simp

/-! ## The bet scan -/

/-- The number of counted operations after reading `opcode`. -/
def countOp (opcode : UInt8) (nOpCount : Nat) : Nat :=
  if OP_16 < opcode then nOpCount + 1 else nOpCount

/-- `opcode > OP_16 && ++nOpCount > 201`. -/
def tooManyOps (opcode : UInt8) (nOpCount : Nat) : Bool :=
  OP_16 < opcode ∧ 201 < nOpCount + 1

/-- How the scan for the first `OP_LOTTO` ends. -/
inductive LottoScan where
  | unreadable
  | absent
  | found (vchPushValue : List UInt8)
deriving DecidableEq

/--
The loop shared by `GetBetData` and `GetLottoTxOutType`: read operations up
to the first `OP_LOTTO` and return the operand of the operation behind it.
-/
def scanLottoLoop : Nat → CScript → Nat → LottoScan
  | 0, _, _ => .absent
  | _ + 1, [], _ => .absent
  | bound + 1, byte :: rest, nOpCount =>
      match getOp2 (byte :: rest) with
      | none => .unreadable
      | some op =>
          if tooManyOps op.opcode nOpCount then .unreadable
          else if op.opcode = OP_LOTTO then
            match getOp2 op.pc with
            | none => .unreadable
            | some operand => .found operand.vchRet
          else scanLottoLoop bound op.pc (countOp op.opcode nOpCount)

/-- The bet scan of a whole script. -/
def scanLotto (script : CScript) : LottoScan :=
  scanLottoLoop script.length script 0

theorem scanLotto_bound
    (bound : Nat) (script : CScript) (nOpCount : Nat)
    (enough : script.length ≤ bound) :
    scanLottoLoop bound script nOpCount =
      scanLottoLoop script.length script nOpCount := by
  induction bound using Nat.strong_induction_on generalizing script nOpCount with
  | _ bound inductionHypothesis =>
      cases script with
      | nil => cases bound <;> rfl
      | cons byte rest =>
          cases bound with
          | zero => simp at enough
          | succ bound =>
              simp only [List.length_cons, scanLottoLoop]
              cases parsed : getOp2 (byte :: rest) with
              | none => rfl
              | some op =>
                  have shorter := getOp2_length parsed
                  simp only [List.length_cons] at enough shorter
                  have large :=
                    inductionHypothesis bound (Nat.lt_succ_self bound)
                      op.pc (countOp op.opcode nOpCount) (by omega)
                  have small :
                      scanLottoLoop rest.length op.pc
                          (countOp op.opcode nOpCount) =
                        scanLottoLoop op.pc.length op.pc
                          (countOp op.opcode nOpCount) :=
                    inductionHypothesis rest.length (by omega)
                      op.pc (countOp op.opcode nOpCount) (by omega)
                  simp only [large, small]

/-- `CScript::GetBetData`. -/
def getBetData (script : CScript) : Option (List UInt8) :=
  match scanLotto script with
  | .found vchPushValue => some vchPushValue
  | _ => none

/-! ## The pool address scan -/

/-- `uint160(const std::vector<unsigned char>&)`: zero unless 20 bytes long. -/
def uint160OfVch (vch : List UInt8) : Uint160 :=
  if vch.length = 20 then BitVec.ofNat 160 (leValue vch) else 0

/-- The opcodes whose operand the address scan takes. -/
def isHashOpcode (opcode : UInt8) : Bool :=
  opcode = OP_RIPEMD160 ∨ opcode = OP_SHA1 ∨ opcode = OP_SHA256 ∨
    opcode = OP_HASH256 ∨ opcode = OP_HASH160

/-- The loop of `CScript::GetLottoPoolAddressFromTx`. -/
def poolAddressLoop : Nat → CScript → Nat → Uint160 → Uint160
  | 0, _, _, lottoPooladdress => lottoPooladdress
  | _ + 1, [], _, lottoPooladdress => lottoPooladdress
  | bound + 1, byte :: rest, nOpCount, lottoPooladdress =>
      match getOp2 (byte :: rest) with
      | none => 0
      | some op =>
          if tooManyOps op.opcode nOpCount then 0
          else if isHashOpcode op.opcode then
            match getOp2 op.pc with
            | none => 0
            | some operand =>
                poolAddressLoop bound operand.pc (countOp op.opcode nOpCount)
                  (uint160OfVch operand.vchRet)
          else
            poolAddressLoop bound op.pc (countOp op.opcode nOpCount)
              lottoPooladdress

/-- `CScript::GetLottoPoolAddressFromTx`. -/
def getLottoPoolAddressFromTx (script : CScript) : Uint160 :=
  poolAddressLoop script.length script 0 0

theorem poolAddressLoop_bound
    (bound : Nat) (script : CScript) (nOpCount : Nat)
    (lottoPooladdress : Uint160)
    (enough : script.length ≤ bound) :
    poolAddressLoop bound script nOpCount lottoPooladdress =
      poolAddressLoop script.length script nOpCount lottoPooladdress := by
  induction bound using Nat.strong_induction_on
    generalizing script nOpCount lottoPooladdress with
  | _ bound inductionHypothesis =>
      cases script with
      | nil => cases bound <;> rfl
      | cons byte rest =>
          cases bound with
          | zero => simp at enough
          | succ bound =>
              simp only [List.length_cons, poolAddressLoop]
              cases parsed : getOp2 (byte :: rest) with
              | none => rfl
              | some op =>
                  have shorter := getOp2_length parsed
                  simp only [List.length_cons] at enough shorter
                  have agree :
                      ∀ (position : CScript) (address : Uint160),
                        position.length ≤ rest.length →
                          poolAddressLoop bound position
                              (countOp op.opcode nOpCount) address =
                            poolAddressLoop rest.length position
                              (countOp op.opcode nOpCount) address := by
                    intro position address fits
                    rw [inductionHypothesis bound (Nat.lt_succ_self bound)
                        position _ address (by omega),
                      inductionHypothesis rest.length (by omega)
                        position _ address fits]
                  simp only [agree op.pc lottoPooladdress (by omega)]
                  cases operandParsed : getOp2 op.pc with
                  | none => rfl
                  | some operand =>
                      have operandShorter := getOp2_length operandParsed
                      simp only [agree operand.pc _ (by omega)]

/-! ## Signature checks -/

/-- The signature checks of one operation. -/
def sigOpsOf (fAccurate : Bool) (lastOpcode opcode : UInt8) : Nat :=
  if opcode = OP_CHECKSIG ∨ opcode = OP_CHECKSIGVERIFY then 1
  else if opcode = OP_CHECKMULTISIG ∨ opcode = OP_CHECKMULTISIGVERIFY then
    if fAccurate ∧ OP_1 ≤ lastOpcode ∧ lastOpcode ≤ OP_16 then
      lastOpcode.toNat - OP_1.toNat + 1
    else 20
  else 0

/-- The loop of `GetSigOpCount(bool)`. -/
def sigOpLoop (fAccurate : Bool) : Nat → UInt8 → CScript → Nat
  | 0, _, _ => 0
  | bound + 1, lastOpcode, script =>
      match getOp2 script with
      | none => 0
      | some op =>
          sigOpsOf fAccurate lastOpcode op.opcode +
            sigOpLoop fAccurate bound op.opcode op.pc

/-- `CScript::GetSigOpCount(bool)`. -/
def getSigOpCount (fAccurate : Bool) (script : CScript) : Nat :=
  sigOpLoop fAccurate script.length OP_INVALIDOPCODE script

theorem sigOpLoop_bound
    (fAccurate : Bool) (bound : Nat) (lastOpcode : UInt8) (script : CScript)
    (enough : script.length ≤ bound) :
    sigOpLoop fAccurate bound lastOpcode script =
      sigOpLoop fAccurate script.length lastOpcode script := by
  induction bound using Nat.strong_induction_on
    generalizing script lastOpcode with
  | _ bound inductionHypothesis =>
      cases script with
      | nil => cases bound <;> rfl
      | cons byte rest =>
          cases bound with
          | zero => simp at enough
          | succ bound =>
              simp only [List.length_cons, sigOpLoop]
              cases parsed : getOp2 (byte :: rest) with
              | none => rfl
              | some op =>
                  have shorter := getOp2_length parsed
                  simp only [List.length_cons] at enough shorter
                  have large :=
                    inductionHypothesis bound (Nat.lt_succ_self bound)
                      op.opcode op.pc (by omega)
                  have small :=
                    inductionHypothesis rest.length (by omega)
                      op.opcode op.pc (by omega)
                  simp only [large, small]

/-- `CScript::IsPayToScriptHash`. -/
def isPayToScriptHash (script : CScript) : Bool :=
  script.length = 23 ∧ script[0]? = some OP_HASH160 ∧
    script[1]? = some 0x14 ∧ script[22]? = some OP_EQUAL

/-- The last item that a script of pushes leaves. -/
def lastPushLoop : Nat → CScript → List UInt8 → Option (List UInt8)
  | _, [], data => some data
  | 0, _ :: _, _ => none
  | bound + 1, byte :: rest, _ =>
      match getOp2 (byte :: rest) with
      | none => none
      | some op =>
          if OP_16 < op.opcode then none
          else lastPushLoop bound op.pc op.vchRet

/-- `CScript::GetSigOpCount(const CScript&)` of a script hash. -/
def getScriptHashSigOpCount (scriptSig : CScript) : Nat :=
  match lastPushLoop scriptSig.length scriptSig [] with
  | none => 0
  | some data => getSigOpCount true data

/-! ## Networks and the pool address -/

/-- The networks of `CChainParams`. -/
inductive Network where
  | main
  | testnet
  | regtest
deriving DecidableEq

/--
The key id in the address `GetLottoPoolAddress` returns: the bytes behind the
version byte of the base58 string, `DistributedLotterySystemMainRYuiyE` on
the main network.
-/
def lottoPoolKeyBytes : Network → List UInt8
  | .main =>
      [0x9d, 0xf4, 0xc9, 0xf7, 0xef, 0xd9, 0x44, 0xb9, 0xb2, 0x3d,
        0x3e, 0xd0, 0x19, 0x92, 0xaa, 0x9b, 0x7a, 0x2c, 0xf9, 0x28]
  | .testnet =>
      [0x43, 0x23, 0xe1, 0x44, 0xeb, 0xf8, 0x4a, 0x30, 0xd9, 0x22,
        0x4f, 0x5e, 0x3b, 0xb8, 0xd7, 0x02, 0xff, 0x1d, 0xcf, 0x43]
  | .regtest =>
      [0x43, 0x23, 0xe1, 0x44, 0xeb, 0xf8, 0x4a, 0x30, 0xd9, 0x22,
        0x4f, 0x5e, 0x3b, 0xb8, 0xd7, 0x02, 0xfe, 0xe8, 0xf1, 0x4f]

/-- `CScript::IsSendPoolAdress`. -/
def isSendPoolAdress (network : Network) (script : CScript) : Bool :=
  getLottoPoolAddressFromTx script = uint160OfVch (lottoPoolKeyBytes network)

/-- `CScript::IsUnspendable`. -/
def isUnspendable : CScript → Bool
  | [] => false
  | byte :: _ => byte = OP_RETURN ∨ byte = OP_LOTTOUNSPEND

end DSValue.Script.Scan
