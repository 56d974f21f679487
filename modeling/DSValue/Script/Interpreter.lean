import DSValue.Lib.Machine
import DSValue.Script.SignatureFormat
import DSValue.Script.SignatureHash
import DSValue.Script.Solver

/-!
# The interpreter of scripts

`EvalScript` reads an operation, checks the limits that hold for every
operation and executes it, unless it stands in a branch that is not taken.
There are no jumps: `OP_IF` puts a flag on a stack of conditions, and an
operation is executed while no flag is false.  `OP_LOTTO` takes the operation
behind it for its operand when it is executed; in a branch that is not taken
that operation is skipped like any other.

A stack is a list with its top in front.  Every reason to stop is the same
answer for the caller, an exception included, so a step is an `Option`.
-/

namespace DSValue.Script.Interpreter

open DSValue.Lib
open DSValue.Core.Serialize
open DSValue.Core.Transaction
open DSValue.Script.Scan hiding getOp2 getOp2_length
open DSValue.Script.PushCodec (getOp2 getOp2_length push)
open DSValue.Script.CodeSeparators (findAndDelete OP_CODESEPARATOR)
open DSValue.Script.SignatureHash (signatureHash Uint256OrHash)
open DSValue.Script.SignatureFormat
open DSValue.Script.Solver (pubKeyBytes)
open DSValue.Script.Number

/-! ## Opcodes -/

def OP_1NEGATE : UInt8 := 0x4f
def OP_NOP : UInt8 := 0x61
def OP_IF : UInt8 := 0x63
def OP_NOTIF : UInt8 := 0x64
def OP_ELSE : UInt8 := 0x67
def OP_ENDIF : UInt8 := 0x68
def OP_VERIFY : UInt8 := 0x69
def OP_TOALTSTACK : UInt8 := 0x6b
def OP_FROMALTSTACK : UInt8 := 0x6c
def OP_2DROP : UInt8 := 0x6d
def OP_2DUP : UInt8 := 0x6e
def OP_3DUP : UInt8 := 0x6f
def OP_2OVER : UInt8 := 0x70
def OP_2ROT : UInt8 := 0x71
def OP_2SWAP : UInt8 := 0x72
def OP_IFDUP : UInt8 := 0x73
def OP_DEPTH : UInt8 := 0x74
def OP_DROP : UInt8 := 0x75
def OP_NIP : UInt8 := 0x77
def OP_OVER : UInt8 := 0x78
def OP_PICK : UInt8 := 0x79
def OP_ROLL : UInt8 := 0x7a
def OP_ROT : UInt8 := 0x7b
def OP_SWAP : UInt8 := 0x7c
def OP_TUCK : UInt8 := 0x7d
def OP_CAT : UInt8 := 0x7e
def OP_SUBSTR : UInt8 := 0x7f
def OP_LEFT : UInt8 := 0x80
def OP_RIGHT : UInt8 := 0x81
def OP_SIZE : UInt8 := 0x82
def OP_INVERT : UInt8 := 0x83
def OP_AND : UInt8 := 0x84
def OP_OR : UInt8 := 0x85
def OP_XOR : UInt8 := 0x86
def OP_1ADD : UInt8 := 0x8b
def OP_1SUB : UInt8 := 0x8c
def OP_2MUL : UInt8 := 0x8d
def OP_2DIV : UInt8 := 0x8e
def OP_NEGATE : UInt8 := 0x8f
def OP_ABS : UInt8 := 0x90
def OP_NOT : UInt8 := 0x91
def OP_0NOTEQUAL : UInt8 := 0x92
def OP_ADD : UInt8 := 0x93
def OP_SUB : UInt8 := 0x94
def OP_MUL : UInt8 := 0x95
def OP_DIV : UInt8 := 0x96
def OP_MOD : UInt8 := 0x97
def OP_LSHIFT : UInt8 := 0x98
def OP_RSHIFT : UInt8 := 0x99
def OP_BOOLAND : UInt8 := 0x9a
def OP_BOOLOR : UInt8 := 0x9b
def OP_NUMEQUAL : UInt8 := 0x9c
def OP_NUMEQUALVERIFY : UInt8 := 0x9d
def OP_NUMNOTEQUAL : UInt8 := 0x9e
def OP_LESSTHAN : UInt8 := 0x9f
def OP_GREATERTHAN : UInt8 := 0xa0
def OP_LESSTHANOREQUAL : UInt8 := 0xa1
def OP_GREATERTHANOREQUAL : UInt8 := 0xa2
def OP_MIN : UInt8 := 0xa3
def OP_MAX : UInt8 := 0xa4
def OP_WITHIN : UInt8 := 0xa5
def OP_NOP1 : UInt8 := 0xb0
def OP_NOP10 : UInt8 := 0xb9

/-- The opcodes that stop a script wherever they stand. -/
def disabledOpcodes : List UInt8 :=
  [OP_CAT, OP_SUBSTR, OP_LEFT, OP_RIGHT, OP_INVERT, OP_AND, OP_OR, OP_XOR,
    OP_2MUL, OP_2DIV, OP_MUL, OP_DIV, OP_MOD, OP_LSHIFT, OP_RSHIFT]

/-! ## Operations on the stack -/

/-- The numeric operations of one number. -/
inductive UnaryOp where
  | add1
  | sub1
  | negate
  | abs
  | not
  | notEqual0
deriving DecidableEq

/-- The numeric operations of two numbers. -/
inductive BinaryOp where
  | add
  | sub
  | boolAnd
  | boolOr
  | numEqual
  | numNotEqual
  | lessThan
  | greaterThan
  | lessThanOrEqual
  | greaterThanOrEqual
  | min
  | max
deriving DecidableEq

/-- The hash opcodes. -/
inductive HashOp where
  | ripemd160
  | sha1
  | sha256
  | hash160
  | hash256
deriving DecidableEq

/-- The operations that use the main stack only. -/
inductive StackOp where
  | number (n : Int)
  | nop
  | verify
  | drop2
  | dup2
  | dup3
  | over2
  | rot2
  | swap2
  | ifDup
  | depth
  | drop
  | dup
  | nip
  | over
  | pick
  | roll
  | rot
  | swap
  | tuck
  | size
  | equal
  | equalVerify
  | unary (op : UnaryOp)
  | binary (op : BinaryOp)
  | numEqualVerify
  | within
  | hash (op : HashOp)
deriving DecidableEq

/-- The number that a comparison gives. -/
def ofBool (value : Bool) : Int := if value then 1 else 0

def UnaryOp.apply : UnaryOp → Int → Int
  | .add1, bn => bn + 1
  | .sub1, bn => bn - 1
  | .negate, bn => -bn
  | .abs, bn => if bn < 0 then -bn else bn
  | .not, bn => ofBool (bn = 0)
  | .notEqual0, bn => ofBool (bn ≠ 0)

def BinaryOp.apply : BinaryOp → Int → Int → Int
  | .add, bn1, bn2 => bn1 + bn2
  | .sub, bn1, bn2 => bn1 - bn2
  | .boolAnd, bn1, bn2 => ofBool (bn1 ≠ 0 ∧ bn2 ≠ 0)
  | .boolOr, bn1, bn2 => ofBool (bn1 ≠ 0 ∨ bn2 ≠ 0)
  | .numEqual, bn1, bn2 => ofBool (bn1 = bn2)
  | .numNotEqual, bn1, bn2 => ofBool (bn1 ≠ bn2)
  | .lessThan, bn1, bn2 => ofBool (bn1 < bn2)
  | .greaterThan, bn1, bn2 => ofBool (bn2 < bn1)
  | .lessThanOrEqual, bn1, bn2 => ofBool (bn1 ≤ bn2)
  | .greaterThanOrEqual, bn1, bn2 => ofBool (bn2 ≤ bn1)
  | .min, bn1, bn2 => if bn1 < bn2 then bn1 else bn2
  | .max, bn1, bn2 => if bn2 < bn1 then bn1 else bn2

/-- The hash functions of OpenSSL. -/
structure Hashes where
  ripemd160 : List UInt8 → Vector UInt8 20
  sha1 : List UInt8 → Vector UInt8 20
  sha256 : List UInt8 → Vector UInt8 32

/-- `Hash160`. -/
def Hashes.hash160 (hashes : Hashes) (vch : List UInt8) : Vector UInt8 20 :=
  hashes.ripemd160 (hashes.sha256 vch).toList

/-- `Hash`. -/
def Hashes.hash (hashes : Hashes) (vch : List UInt8) : Vector UInt8 32 :=
  hashes.sha256 (hashes.sha256 vch).toList

def HashOp.apply (hashes : Hashes) : HashOp → Valtype → Valtype
  | .ripemd160, vch => (hashes.ripemd160 vch).toList
  | .sha1, vch => (hashes.sha1 vch).toList
  | .sha256, vch => (hashes.sha256 vch).toList
  | .hash160, vch => (hashes.hash160 vch).toList
  | .hash256, vch => (hashes.hash vch).toList

/-- `fSuccess ? vchTrue : vchFalse`. -/
def boolVch (value : Bool) : Valtype := if value then vchTrue else vchFalse

/-- What an operation makes of the stack. -/
def StackOp.apply (hashes : Hashes) : StackOp → List Valtype → Option (List Valtype)
  | .number n, stack => some (getvch n :: stack)
  | .nop, stack => some stack
  | .verify, vch :: stack => if castToBool vch then some stack else none
  | .drop2, _ :: _ :: stack => some stack
  | .dup2, x2 :: x1 :: stack => some (x2 :: x1 :: x2 :: x1 :: stack)
  | .dup3, x3 :: x2 :: x1 :: stack =>
      some (x3 :: x2 :: x1 :: x3 :: x2 :: x1 :: stack)
  | .over2, x4 :: x3 :: x2 :: x1 :: stack =>
      some (x2 :: x1 :: x4 :: x3 :: x2 :: x1 :: stack)
  | .rot2, x6 :: x5 :: x4 :: x3 :: x2 :: x1 :: stack =>
      some (x2 :: x1 :: x6 :: x5 :: x4 :: x3 :: stack)
  | .swap2, x4 :: x3 :: x2 :: x1 :: stack =>
      some (x2 :: x1 :: x4 :: x3 :: stack)
  | .ifDup, vch :: stack =>
      some (if castToBool vch then vch :: vch :: stack else vch :: stack)
  | .depth, stack => some (getvch stack.length :: stack)
  | .drop, _ :: stack => some stack
  | .dup, vch :: stack => some (vch :: vch :: stack)
  | .nip, x2 :: _ :: stack => some (x2 :: stack)
  | .over, x2 :: x1 :: stack => some (x1 :: x2 :: x1 :: stack)
  | .pick, top :: x0 :: stack => do
      let n := getint (← castToBigNum top)
      if n < 0 ∨ ((x0 :: stack).length : Int) ≤ n then none
      else
        let vch ← (x0 :: stack)[n.toNat]?
        some (vch :: x0 :: stack)
  | .roll, top :: x0 :: stack => do
      let n := getint (← castToBigNum top)
      if n < 0 ∨ ((x0 :: stack).length : Int) ≤ n then none
      else
        let vch ← (x0 :: stack)[n.toNat]?
        some (vch :: (x0 :: stack).eraseIdx n.toNat)
  | .rot, x3 :: x2 :: x1 :: stack => some (x1 :: x3 :: x2 :: stack)
  | .swap, x2 :: x1 :: stack => some (x1 :: x2 :: stack)
  | .tuck, x2 :: x1 :: stack => some (x2 :: x1 :: x2 :: stack)
  | .size, vch :: stack => some (getvch vch.length :: vch :: stack)
  | .equal, vch2 :: vch1 :: stack => some (boolVch (vch1 = vch2) :: stack)
  | .equalVerify, vch2 :: vch1 :: stack => if vch1 = vch2 then some stack else none
  | .unary op, vch :: stack => do
      let bn ← castToBigNum vch
      some (getvch (op.apply bn) :: stack)
  | .binary op, vch2 :: vch1 :: stack => do
      let bn1 ← castToBigNum vch1
      let bn2 ← castToBigNum vch2
      some (getvch (op.apply bn1 bn2) :: stack)
  | .numEqualVerify, vch2 :: vch1 :: stack => do
      let bn1 ← castToBigNum vch1
      let bn2 ← castToBigNum vch2
      if castToBool (getvch (BinaryOp.numEqual.apply bn1 bn2)) then some stack
      else none
  | .within, vch3 :: vch2 :: vch1 :: stack => do
      let bn1 ← castToBigNum vch1
      let bn2 ← castToBigNum vch2
      let bn3 ← castToBigNum vch3
      some (boolVch (bn2 ≤ bn1 ∧ bn1 < bn3) :: stack)
  | .hash op, vch :: stack => some (op.apply hashes vch :: stack)
  | _, _ => none

/-! ## The operations of a script -/

/-- What an opcode behind the pushes stands for. -/
inductive Operation where
  | onStack (op : StackOp)
  | opIf (negated : Bool)
  | opElse
  | opEndIf
  | toAltStack
  | fromAltStack
  | codeSeparator
  | checkSig (verify : Bool)
  | checkMultiSig (verify : Bool)
  | lotto
  | invalid
deriving DecidableEq

/-- The opcodes with an operation of their own. -/
def operations : List (UInt8 × Operation) :=
  [(OP_NOP, .onStack .nop), (OP_IF, .opIf false), (OP_NOTIF, .opIf true),
    (OP_ELSE, .opElse), (OP_ENDIF, .opEndIf), (OP_VERIFY, .onStack .verify),
    (OP_TOALTSTACK, .toAltStack), (OP_FROMALTSTACK, .fromAltStack),
    (OP_2DROP, .onStack .drop2), (OP_2DUP, .onStack .dup2),
    (OP_3DUP, .onStack .dup3), (OP_2OVER, .onStack .over2),
    (OP_2ROT, .onStack .rot2), (OP_2SWAP, .onStack .swap2),
    (OP_IFDUP, .onStack .ifDup), (OP_DEPTH, .onStack .depth),
    (OP_DROP, .onStack .drop), (OP_DUP, .onStack .dup), (OP_NIP, .onStack .nip),
    (OP_OVER, .onStack .over), (OP_PICK, .onStack .pick),
    (OP_ROLL, .onStack .roll), (OP_ROT, .onStack .rot),
    (OP_SWAP, .onStack .swap), (OP_TUCK, .onStack .tuck),
    (OP_SIZE, .onStack .size), (OP_EQUAL, .onStack .equal),
    (OP_EQUALVERIFY, .onStack .equalVerify),
    (OP_1ADD, .onStack (.unary .add1)), (OP_1SUB, .onStack (.unary .sub1)),
    (OP_NEGATE, .onStack (.unary .negate)), (OP_ABS, .onStack (.unary .abs)),
    (OP_NOT, .onStack (.unary .not)),
    (OP_0NOTEQUAL, .onStack (.unary .notEqual0)),
    (OP_ADD, .onStack (.binary .add)), (OP_SUB, .onStack (.binary .sub)),
    (OP_BOOLAND, .onStack (.binary .boolAnd)),
    (OP_BOOLOR, .onStack (.binary .boolOr)),
    (OP_NUMEQUAL, .onStack (.binary .numEqual)),
    (OP_NUMEQUALVERIFY, .onStack .numEqualVerify),
    (OP_NUMNOTEQUAL, .onStack (.binary .numNotEqual)),
    (OP_LESSTHAN, .onStack (.binary .lessThan)),
    (OP_GREATERTHAN, .onStack (.binary .greaterThan)),
    (OP_LESSTHANOREQUAL, .onStack (.binary .lessThanOrEqual)),
    (OP_GREATERTHANOREQUAL, .onStack (.binary .greaterThanOrEqual)),
    (OP_MIN, .onStack (.binary .min)), (OP_MAX, .onStack (.binary .max)),
    (OP_WITHIN, .onStack .within), (OP_RIPEMD160, .onStack (.hash .ripemd160)),
    (OP_SHA1, .onStack (.hash .sha1)), (OP_SHA256, .onStack (.hash .sha256)),
    (OP_HASH160, .onStack (.hash .hash160)),
    (OP_HASH256, .onStack (.hash .hash256)),
    (OP_CODESEPARATOR, .codeSeparator), (OP_CHECKSIG, .checkSig false),
    (OP_CHECKSIGVERIFY, .checkSig true),
    (OP_CHECKMULTISIG, .checkMultiSig false),
    (OP_CHECKMULTISIGVERIFY, .checkMultiSig true), (OP_LOTTO, .lotto),
    (OP_LOTTOUNSPEND, .onStack .nop)]

/-- The `switch` over the opcodes. -/
def operation (opcode : UInt8) : Operation :=
  if opcode = OP_1NEGATE ∨ OP_1 ≤ opcode ∧ opcode ≤ OP_16 then
    .onStack (.number ((opcode.toNat : Int) - ((OP_1.toNat : Int) - 1)))
  else if OP_NOP1 ≤ opcode ∧ opcode ≤ OP_NOP10 then .onStack .nop
  else (operations.lookup opcode).getD .invalid

/-! ## Signatures -/

/-- What signatures are checked with. -/
structure Crypto where
  hashes : Hashes
  /-- `CPubKey::Verify`. -/
  verify : (pubkey : List UInt8) → (sighash : Uint256) → (vchSig : List UInt8) → Bool

/-- The arguments of `EvalScript` that do not change. -/
structure EvalArgs where
  crypto : Crypto
  txTo : CTransaction
  nIn : UInt32
  flags : UInt32
  nHashType : Int32

/-- The number that `SignatureHash` returns, or what a fault leaves. -/
def Crypto.toUint256 (crypto : Crypto) : Except Fault Uint256OrHash → Uint256
  | .ok (.hash bytes) =>
      BitVec.ofNat 256 (Lib.Encoding.leValue (crypto.hashes.hash bytes).toList)
  | _ => 1

/-- The hash type that `CheckSig` uses, when it agrees with the last byte. -/
def hashTypeOf (nHashType : Int32) (last : UInt8) : Option Int32 :=
  if nHashType = 0 then some (Int32.ofNat last.toNat)
  else if nHashType ≠ Int32.ofNat last.toNat then none
  else some nHashType

/-- `CheckSig` without its cache. -/
def EvalArgs.checkSig (args : EvalArgs) (vchSig vchPubKey : Valtype)
    (scriptCode : CScript) : Bool :=
  if pubKeyBytes vchPubKey = [] then false
  else
    match vchSig.getLast? with
    | none => false
    | some last =>
        match hashTypeOf args.nHashType last with
        | none => false
        | some nHashType =>
            args.crypto.verify (pubKeyBytes vchPubKey)
              (args.crypto.toUint256
                (signatureHash scriptCode args.txTo args.nIn nHashType))
              vchSig.dropLast

/-- One signature check of `OP_CHECKSIG` or `OP_CHECKMULTISIG`. -/
def EvalArgs.check (args : EvalArgs) (scriptCode : CScript)
    (vchSig vchPubKey : Valtype) : Bool :=
  (isCanonicalSignature vchSig args.flags).isOk &&
    (isCanonicalPubKey vchPubKey args.flags).isOk &&
    args.checkSig vchSig vchPubKey scriptCode

/-- The script without the signatures, since none can sign itself. -/
def dropSignatures (scriptCode : CScript) (sigs : List Valtype) : CScript :=
  sigs.foldl (fun scriptCode vchSig =>
    (findAndDelete scriptCode (push [] vchSig)).1) scriptCode

/--
The loop of `OP_CHECKMULTISIG`: the next signature is checked against the next
key, until more signatures than keys are left.
-/
def multiSigLoop (check : Valtype → Valtype → Bool) :
    (sigs keys : List Valtype) → Bool
  | [], _ => true
  | _ :: _, [] => false
  | vchSig :: sigs, vchPubKey :: keys =>
      let left := if check vchSig vchPubKey then sigs else vchSig :: sigs
      if keys.length < left.length then false
      else multiSigLoop check left keys

/-! ## The loop -/

/-- The variables of the loop. -/
structure EvalState where
  pc : CScript
  pbegincodehash : CScript
  stack : List Valtype
  altstack : List Valtype
  vfExec : List Bool
  nOpCount : Nat
deriving DecidableEq

/-- `fExec`. -/
def EvalState.fExec (state : EvalState) : Bool := !state.vfExec.contains false

/-- Leave the answer of a check, or insist on it. -/
def answer (verify fSuccess : Bool) (stack : List Valtype) :
    Option (List Valtype) :=
  if verify then if fSuccess then some stack else none
  else some (boolVch fSuccess :: stack)

/-- `OP_IF` and `OP_NOTIF`. -/
def executeIf (negated : Bool) (state : EvalState) : Option EvalState :=
  if state.fExec then
    match state.stack with
    | [] => none
    | vch :: stack =>
        some { state with
          stack := stack
          vfExec := (castToBool vch != negated) :: state.vfExec }
  else some { state with vfExec := false :: state.vfExec }

/-- `OP_CHECKSIG` and `OP_CHECKSIGVERIFY`. -/
def executeCheckSig (args : EvalArgs) (verify : Bool) (state : EvalState) :
    Option EvalState :=
  match state.stack with
  | vchPubKey :: vchSig :: stack => do
      let scriptCode := dropSignatures state.pbegincodehash [vchSig]
      let stack ← answer verify (args.check scriptCode vchSig vchPubKey) stack
      some { state with stack := stack }
  | _ => none

/-- The operands of `OP_CHECKMULTISIG`. -/
structure MultiSig where
  keys : List Valtype
  sigs : List Valtype
  rest : List Valtype

/--
The operands of `OP_CHECKMULTISIG` on the stack, below the number of keys.  One
element more than they are is taken.
-/
def readMultiSig (nKeysCount : Nat) (stack : List Valtype) : Option MultiSig :=
  match stack.drop nKeysCount with
  | [] => none
  | count :: below => do
      let nSigsCount := getint (← castToBigNum count)
      if nSigsCount < 0 ∨ (nKeysCount : Int) < nSigsCount then none
      else if below.length < nSigsCount.toNat + 1 then none
      else
        some
          { keys := stack.take nKeysCount
            sigs := below.take nSigsCount.toNat
            rest := below.drop (nSigsCount.toNat + 1) }

/-- `OP_CHECKMULTISIG` and `OP_CHECKMULTISIGVERIFY`. -/
def executeCheckMultiSig (args : EvalArgs) (verify : Bool) (state : EvalState) :
    Option EvalState :=
  match state.stack with
  | [] => none
  | count :: stack => do
      let nKeysCount := getint (← castToBigNum count)
      if nKeysCount < 0 ∨ 20 < nKeysCount then none
      else
        let nOpCount := state.nOpCount + nKeysCount.toNat
        if 201 < nOpCount then none
        else do
          let operands ← readMultiSig nKeysCount.toNat stack
          let scriptCode := dropSignatures state.pbegincodehash operands.sigs
          let fSuccess :=
            multiSigLoop (args.check scriptCode) operands.sigs operands.keys
          let stack ← answer verify fSuccess operands.rest
          some { state with stack := stack, nOpCount := nOpCount }

/-- The `switch`, when its operation is executed. -/
def execute (args : EvalArgs) : Operation → EvalState → Option EvalState
  | .onStack op, state =>
      (op.apply args.crypto.hashes state.stack).map fun stack =>
        { state with stack := stack }
  | .opIf negated, state => executeIf negated state
  | .opElse, state =>
      match state.vfExec with
      | [] => none
      | fValue :: vfExec => some { state with vfExec := (!fValue) :: vfExec }
  | .opEndIf, state =>
      match state.vfExec with
      | [] => none
      | _ :: vfExec => some { state with vfExec := vfExec }
  | .toAltStack, state =>
      match state.stack with
      | [] => none
      | vch :: stack =>
          some { state with stack := stack, altstack := vch :: state.altstack }
  | .fromAltStack, state =>
      match state.altstack with
      | [] => none
      | vch :: altstack =>
          some { state with stack := vch :: state.stack, altstack := altstack }
  | .codeSeparator, state => some { state with pbegincodehash := state.pc }
  | .checkSig verify, state => executeCheckSig args verify state
  | .checkMultiSig verify, state => executeCheckMultiSig args verify state
  | .lotto, state =>
      (getOp2 state.pc).map fun operand => { state with pc := operand.pc }
  | .invalid, _ => none

/-- What is done with an operation that was read. -/
def dispatch (args : EvalArgs) (op : ParsedOp) (state : EvalState) :
    Option EvalState :=
  if state.fExec ∧ op.opcode ≤ OP_PUSHDATA4 then
    some { state with stack := op.vchRet :: state.stack }
  else if state.fExec ∨ OP_IF ≤ op.opcode ∧ op.opcode ≤ OP_ENDIF then
    execute args (operation op.opcode) state
  else some state

/-- The size limits behind every operation. -/
def withinLimits (state : EvalState) : Bool :=
  state.stack.length + state.altstack.length ≤ 1000

/-- Reading an operation and the checks in front of the `switch`. -/
def fetch (state : EvalState) : Option (ParsedOp × EvalState) :=
  match getOp2 state.pc with
  | none => none
  | some op =>
      if 520 < op.vchRet.length then none
      else if tooManyOps op.opcode state.nOpCount then none
      else if op.opcode ∈ disabledOpcodes then none
      else
        some (op, { state with
          pc := op.pc
          nOpCount := countOp op.opcode state.nOpCount })

/-- One round of the loop. -/
def step (args : EvalArgs) (state : EvalState) : Option EvalState := do
  let (op, state) ← fetch state
  let state ← dispatch args op state
  if withinLimits state then some state else none

/-- The state in front of the first round. -/
def EvalState.start (stack : List Valtype) (script : CScript) : EvalState where
  pc := script
  pbegincodehash := script
  stack := stack
  altstack := []
  vfExec := []
  nOpCount := 0

variable {args : EvalArgs} {op : ParsedOp} {state next fetched : EvalState}

theorem fetch_eq_some :
    fetch state = some (op, fetched) ↔
      getOp2 state.pc = some op ∧ op.vchRet.length ≤ 520 ∧
        tooManyOps op.opcode state.nOpCount = false ∧
        op.opcode ∉ disabledOpcodes ∧
        fetched = { state with
          pc := op.pc
          nOpCount := countOp op.opcode state.nOpCount } := by
  rw [fetch]
  cases parsed : getOp2 state.pc with
  | none => exact iff_of_false (fun equal => by cases equal) fun all => by cases all.1
  | some read =>
      dsimp only
      split_ifs with long many disabled
      · refine iff_of_false (fun equal => by cases equal) ?_
        rintro ⟨same, short, -⟩
        cases same
        exact absurd short (Nat.not_le_of_lt long)
      · refine iff_of_false (fun equal => by cases equal) ?_
        rintro ⟨same, -, few, -⟩
        cases same
        rw [few] at many
        cases many
      · refine iff_of_false (fun equal => by cases equal) ?_
        rintro ⟨same, -, -, allowed, -⟩
        cases same
        exact allowed disabled
      · constructor
        · intro equal
          cases equal
          exact ⟨rfl, Nat.le_of_not_lt long, Bool.not_eq_true _ ▸ many, disabled,
            rfl⟩
        · rintro ⟨same, -, -, -, rfl⟩
          cases same
          rfl

/-- What a round does: read, execute, check the size. -/
theorem step_eq_some :
    step args state = some next ↔
      ∃ op fetched, fetch state = some (op, fetched) ∧
        dispatch args op fetched = some next ∧ withinLimits next = true := by
  rw [step]
  constructor
  · intro taken
    rcases Option.bind_eq_some_iff.mp taken with ⟨⟨op, fetched⟩, read, taken⟩
    rcases Option.bind_eq_some_iff.mp taken with ⟨after, executed, taken⟩
    split_ifs at taken with fits
    cases taken
    exact ⟨op, fetched, read, executed, fits⟩
  · rintro ⟨op, fetched, read, executed, fits⟩
    rw [read, Option.bind_eq_bind, Option.bind_some]
    dsimp only
    rw [executed, Option.bind_eq_bind, Option.bind_some, if_pos fits]

/-- Only `OP_LOTTO` moves the position. -/
theorem execute_pc_eq
    {operation : Operation} (executed : execute args operation state = some next)
    (other : operation ≠ .lotto) : next.pc = state.pc := by
  cases operation with
  | onStack op =>
      rcases Option.map_eq_some_iff.mp executed with ⟨stack, -, rfl⟩
      rfl
  | opIf negated =>
      rw [execute, executeIf] at executed
      split_ifs at executed
      · split at executed <;> cases executed
        rfl
      · cases executed
        rfl
  | opElse | opEndIf | toAltStack | fromAltStack =>
      rw [execute] at executed
      split at executed <;> cases executed
      rfl
  | codeSeparator =>
      cases executed
      rfl
  | checkSig verify =>
      rw [execute, executeCheckSig] at executed
      split at executed
      · rcases Option.bind_eq_some_iff.mp executed with ⟨stack, -, same⟩
        cases same
        rfl
      · cases executed
  | checkMultiSig verify =>
      rw [execute, executeCheckMultiSig] at executed
      split at executed
      · cases executed
      · rcases Option.bind_eq_some_iff.mp executed with ⟨count, -, executed⟩
        dsimp only at executed
        split_ifs at executed
        rcases Option.bind_eq_some_iff.mp executed with ⟨operands, -, executed⟩
        rcases Option.bind_eq_some_iff.mp executed with ⟨stack, -, same⟩
        cases same
        rfl
  | lotto => exact absurd rfl other
  | invalid => cases executed

/-- `OP_LOTTO` moves the position over its operand. -/
theorem execute_lotto
    (executed : execute args .lotto state = some next) :
    ∃ operand, getOp2 state.pc = some operand ∧
      next = { state with pc := operand.pc } := by
  rcases Option.map_eq_some_iff.mp executed with ⟨operand, parsed, same⟩
  exact ⟨operand, parsed, same.symm⟩

theorem execute_pc {operation : Operation}
    (executed : execute args operation state = some next) :
    next.pc.length ≤ state.pc.length := by
  by_cases isLotto : operation = .lotto
  · subst isLotto
    rcases execute_lotto executed with ⟨operand, parsed, rfl⟩
    exact (getOp2_length parsed).le
  · exact (congrArg List.length (execute_pc_eq executed isLotto)).le

theorem dispatch_pc (executed : dispatch args op state = some next) :
    next.pc.length ≤ state.pc.length := by
  rw [dispatch] at executed
  split_ifs at executed
  · cases executed
    exact le_refl _
  · exact execute_pc executed
  · cases executed
    exact le_refl _

/-- Every round reads on. -/
theorem step_pc (taken : step args state = some next) :
    next.pc.length < state.pc.length := by
  rcases step_eq_some.mp taken with ⟨op, fetched, read, executed, -⟩
  rcases fetch_eq_some.mp read with ⟨parsed, -, -, -, rfl⟩
  exact Nat.lt_of_le_of_lt (dispatch_pc executed) (getOp2_length parsed)

/-- The loop of `EvalScript`, `while (pc < pend)`. -/
def evalMachine (args : EvalArgs) : Machine EvalState where
  step := step args
  done := fun state => state.pc.isEmpty
  measure := fun state => state.pc.length
  descends := step_pc
  stuck := by
    intro state done
    have nothing : getOp2 state.pc = none := by
      rw [List.isEmpty_iff.mp done]
      rfl
    rw [step, fetch, nothing]
    rfl

/-- `EvalScript`, with the stack it leaves when it returns true. -/
def evalScript (args : EvalArgs) (stack : List Valtype) (script : CScript) :
    Option (List Valtype) :=
  if 10000 < script.length then none
  else do
    let state ← (evalMachine args).exec (EvalState.start stack script)
    if state.vfExec.isEmpty then some state.stack else none

/-- `CScript::IsPushOnly`. -/
def isPushOnly (script : CScript) : Bool :=
  match _ : getOp2 script with
  | none => script.isEmpty
  | some op =>
      if OP_16 < op.opcode then false
      else isPushOnly op.pc
termination_by script.length
decreasing_by
  rename_i parsed _
  exact getOp2_length parsed

/-- The last value on a stack is there and true. -/
def topIsTrue : List Valtype → Bool
  | [] => false
  | vch :: _ => castToBool vch

/-- The evaluation of the script whose hash is paid to. -/
def verifySubscript (args : EvalArgs) (scriptSig : CScript) :
    (stackCopy : List Valtype) → Except Fault Bool
  | stackCopy =>
      if isPushOnly scriptSig = false then pure false
      else
        match stackCopy with
        | [] => throw .assertion
        | pubKeySerialized :: stackCopy =>
            match evalScript args stackCopy pubKeySerialized with
            | none => pure false
            | some stack => pure (topIsTrue stack)

/-- `VerifyScript`. -/
def verifyScript (args : EvalArgs) (scriptSig scriptPubKey : CScript) :
    Except Fault Bool :=
  match evalScript args [] scriptSig with
  | none => pure false
  | some stackCopy =>
      match evalScript args stackCopy scriptPubKey with
      | none => pure false
      | some stack =>
          if topIsTrue stack = false then pure false
          else if args.flags &&& SCRIPT_VERIFY_P2SH ≠ 0 ∧
              Scan.isPayToScriptHash scriptPubKey then
            verifySubscript args scriptSig stackCopy
          else pure true

/-- The script runs to its end and leaves a stack exactly if it gets there. -/
theorem evalScript_eq_some {stack result : List Valtype} {script : CScript} :
    evalScript args stack script = some result ↔
      script.length ≤ 10000 ∧
        ∃ state, (evalMachine args).Reaches (EvalState.start stack script) state ∧
          state.pc = [] ∧ state.vfExec = [] ∧ state.stack = result := by
  rw [evalScript]
  split_ifs with long
  · exact iff_of_false (fun equal => by cases equal)
      fun both => absurd both.1 (Nat.not_le_of_lt long)
  · rw [and_iff_right (Nat.le_of_not_lt long)]
    constructor
    · intro evaluated
      rcases Option.bind_eq_some_iff.mp evaluated with ⟨state, ended, evaluated⟩
      rcases Machine.exec_eq_some.mp ended with ⟨reaches, done⟩
      split_ifs at evaluated with closed
      cases evaluated
      exact ⟨state, reaches, List.isEmpty_iff.mp done, List.isEmpty_iff.mp closed,
        rfl⟩
    · rintro ⟨state, reaches, done, closed, rfl⟩
      rw [Machine.exec_eq_some.mpr ⟨reaches, List.isEmpty_iff.mpr done⟩,
        Option.bind_eq_bind, Option.bind_some, if_pos (List.isEmpty_iff.mpr closed)]

end DSValue.Script.Interpreter
