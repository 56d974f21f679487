import DSValue.Lib.Matching
import DSValue.Script.Execution

/-!
# Standard outputs and the interpreter

`Solver` reads the type of an output off its script.  Here the type is compared
with what the interpreter does: which stacks, left by the script of the input,
an output of each type accepts.  The scripts need not be the ones the wallet
writes; every form of a push that `Solver` lets pass is covered.
-/

namespace DSValue.Script.StandardOutputs

open DSValue.Lib
open DSValue.Lib.Matching
open DSValue.Script.Scan hiding getOp2 getOp2_length
open DSValue.Script.PushCodec (getOp2 getOp2_length push)
open DSValue.Script.Solver hiding isPayToScriptHash
open DSValue.Script.SignatureFormat
open DSValue.Script.Number
open DSValue.Script.Interpreter
open DSValue.Script.Execution

variable {args : EvalArgs} {op : ParsedOp} {opcode : UInt8}
  {script rest scriptSig scriptPubKey : CScript}
  {template : List UInt8} {vSolutions result : List (List UInt8)}
  {typeRet : TxnOutType}

/-! ## What a template says about a script -/

/-- A script with an output type matches one of the templates. -/
theorem matchTemplate_of_solverLoop
    {templates : List (TxnOutType × List UInt8)}
    (solved : solverLoop script templates = some (typeRet, result)) :
    ∃ template, (typeRet, template) ∈ templates ∧
      matchTemplate template script [] = some result := by
  induction templates with
  | nil => cases solved
  | cons head templates inductionHypothesis =>
      rcases head with ⟨type, template⟩
      rw [solverLoop] at solved
      split at solved
      · rcases inductionHypothesis solved with ⟨found, listed, matched⟩
        exact ⟨found, List.mem_cons_of_mem _ listed, matched⟩
      next matched =>
        split_ifs at solved
        cases solved
        exact ⟨template, List.mem_cons_self, matched⟩

theorem matchTemplate_of_solver
    (solved : solver script = some (typeRet, result))
    (other : typeRet ≠ .scripthash) :
    ∃ template, (typeRet, template) ∈ mTemplates ∧
      matchTemplate template script [] = some result := by
  rw [solver] at solved
  split_ifs at solved
  · cases solved
    exact absurd rfl other
  · exact matchTemplate_of_solverLoop solved

/-- An operation is read by both versions of `GetOp2` if it is short. -/
theorem getOp2_of_scan
    (parsed : Scan.getOp2 script = some op)
    (short : op.vchRet.length + op.pc.length < 2 ^ 32) :
    getOp2 script = some op := by
  cases script with
  | nil => cases parsed
  | cons opcode pc =>
      rw [Scan.getOp2] at parsed
      rw [getOp2]
      split_ifs at parsed ⊢ with isPush
      · cases read : readPushSize opcode pc with
        | none =>
            rw [read] at parsed
            cases parsed
        | some sized =>
            rcases sized with ⟨nSize, operand⟩
            rw [read] at parsed
            dsimp only at parsed ⊢
            split_ifs at parsed with truncated
            cases parsed
            rw [List.length_take, List.length_drop] at short
            rw [Nat.mod_eq_of_lt (by omega), if_neg truncated]
      · exact parsed

/-- What the bounded comparison lets pass is there. -/
theorem scan_of_getOp2 (parsed : getOp2 script = some op) :
    Scan.getOp2 script = some op := by
  cases script with
  | nil => cases parsed
  | cons opcode pc =>
      rw [getOp2] at parsed
      rw [Scan.getOp2]
      split_ifs at parsed ⊢ with isPush
      · cases read : readPushSize opcode pc with
        | none =>
            rw [read] at parsed
            cases parsed
        | some sized =>
            rw [read] at parsed
            dsimp only at parsed ⊢
            split_ifs at parsed with truncated
            have there := Nat.mod_le sized.2.length (2 ^ 32)
            rw [if_neg (by omega)]
            exact parsed
      · exact parsed

/-- The bytes of an operation are its operand and at most five more. -/
theorem length_le_of_scan (parsed : Scan.getOp2 script = some op) :
    script.length ≤ op.vchRet.length + op.pc.length + 5 := by
  cases script with
  | nil => cases parsed
  | cons opcode pc =>
      rw [Scan.getOp2] at parsed
      split_ifs at parsed with isPush
      · cases read : readPushSize opcode pc with
        | none =>
            rw [read] at parsed
            cases parsed
        | some sized =>
            rcases sized with ⟨nSize, operand⟩
            have field : pc.length ≤ operand.length + 4 := by
              rw [readPushSize] at read
              split_ifs at read
              · cases read
                omega
              all_goals
                rw [readSizeField] at read
                split_ifs at read
                cases read
                rw [List.length_drop]
                omega
            rw [read] at parsed
            dsimp only at parsed
            split_ifs at parsed
            cases parsed
            simp only [List.length_take, List.length_drop, List.length_cons]
            omega
      · cases parsed
        simp only [List.length_nil, List.length_cons]
        omega

theorem length_le_of_getOp2 (parsed : getOp2 script = some op) :
    script.length ≤ op.vchRet.length + op.pc.length + 5 :=
  length_le_of_scan (scan_of_getOp2 parsed)

theorem eq_cons_of_scan
    (parsed : Scan.getOp2 script = some op) (behind : OP_PUSHDATA4 < op.opcode) :
    script = op.opcode :: op.pc := by
  cases script with
  | nil => cases parsed
  | cons first pc =>
      rw [Scan.getOp2] at parsed
      split_ifs at parsed with isPush
      · split at parsed
        · cases parsed
        · split_ifs at parsed
          cases parsed
          exact absurd isPush (UInt8.not_le.mpr behind)
      · cases parsed
        rfl

/-- The opcodes that stand for something else in a template. -/
def isPlaceholder (opcode : UInt8) : Bool :=
  opcode = OP_PUBKEYS ∨ opcode = OP_PUBKEY ∨ opcode = OP_PUBKEYHASH ∨
    opcode = OP_SMALLINTEGER ∨ opcode = OP_SMALLDATA ∨ opcode = OP_LOTTO

/-- An opcode of a template stands for itself. -/
theorem matchTemplate_opcode
    (matched : matchTemplate (opcode :: template) script vSolutions = some result)
    (exact : isPlaceholder opcode = false) (behind : OP_PUSHDATA4 < opcode) :
    ∃ rest, script = opcode :: rest ∧
      matchTemplate template rest vSolutions = some result := by
  have own := of_decide_eq_false exact
  simp only [not_or] at own
  rcases own with ⟨noKeys, noKey, noHash, noInteger, noData, noLotto⟩
  rw [matchTemplate] at matched
  cases parsed : Scan.getOp2 script with
  | none =>
      rw [parsed] at matched
      cases matched
  | some op =>
      rw [parsed] at matched
      dsimp only at matched
      rw [if_neg noKeys, matchOp, if_neg noKey, if_neg noHash, if_neg noInteger,
        if_neg noData, if_neg fun both => noLotto both.2] at matched
      split_ifs at matched with differs
      rw [not_or, not_not, not_not] at differs
      have whole := eq_cons_of_scan parsed (by rw [differs.1]; exact behind)
      exact ⟨op.pc, by rw [whole, differs.1], matched⟩

/-- `OP_PUBKEYHASH` stands for a push of twenty bytes. -/
theorem matchTemplate_pubKeyHash
    (matched : matchTemplate (OP_PUBKEYHASH :: template) script vSolutions =
      some result) :
    ∃ op, Scan.getOp2 script = some op ∧ op.vchRet.length = 20 ∧
      matchTemplate template op.pc (vSolutions ++ [op.vchRet]) = some result := by
  rw [matchTemplate] at matched
  cases parsed : Scan.getOp2 script with
  | none =>
      rw [parsed] at matched
      cases matched
  | some op =>
      rw [parsed] at matched
      dsimp only at matched
      rw [if_neg (by decide), matchOp, if_neg (by decide), if_pos rfl] at matched
      split_ifs at matched with differs
      exact ⟨op, rfl, not_not.mp differs, matched⟩

/-- `OP_PUBKEY` stands for a push of 33 to 65 bytes. -/
theorem matchTemplate_pubKey
    (matched : matchTemplate (OP_PUBKEY :: template) script vSolutions =
      some result) :
    ∃ op, Scan.getOp2 script = some op ∧
      (33 ≤ op.vchRet.length ∧ op.vchRet.length ≤ 65) ∧
      matchTemplate template op.pc (vSolutions ++ [op.vchRet]) = some result := by
  rw [matchTemplate] at matched
  cases parsed : Scan.getOp2 script with
  | none =>
      rw [parsed] at matched
      cases matched
  | some op =>
      rw [parsed] at matched
      dsimp only at matched
      rw [if_neg (by decide), matchOp, if_pos rfl] at matched
      split_ifs at matched with differs
      exact ⟨op, rfl, by omega, matched⟩

theorem matchTemplate_nil
    (matched : matchTemplate [] script vSolutions = some result) :
    script = [] ∧ vSolutions = result := by
  cases script with
  | nil =>
      cases matched
      exact ⟨rfl, rfl⟩
  | cons opcode pc => cases matched

/-- The script of an output that pays to the hash of a key. -/
theorem eq_of_pubKeyHash
    (solved : solver script = some (.pubkeyhash, result)) :
    ∃ op, result = [op.vchRet] ∧ op.vchRet.length = 20 ∧
      op.pc = [OP_EQUALVERIFY, OP_CHECKSIG] ∧
      ∃ pc, script = OP_DUP :: OP_HASH160 :: pc ∧ getOp2 pc = some op := by
  rcases matchTemplate_of_solver solved (by decide) with
    ⟨template, listed, matched⟩
  simp only [mTemplates, List.mem_cons, Prod.mk.injEq, reduceCtorEq, false_and,
    true_and, false_or, or_false, List.not_mem_nil] at listed
  subst listed
  rcases matchTemplate_opcode matched (by decide) (by decide) with
    ⟨hashing, whole, hashMatched⟩
  rcases matchTemplate_opcode hashMatched (by decide) (by decide) with
    ⟨pc, rfl, pushMatched⟩
  rcases matchTemplate_pubKeyHash pushMatched with
    ⟨op, parsed, twenty, verifyMatched⟩
  rcases matchTemplate_opcode verifyMatched (by decide) (by decide) with
    ⟨verify, behind, checkMatched⟩
  rcases matchTemplate_opcode checkMatched (by decide) (by decide) with
    ⟨check, rfl, endMatched⟩
  rcases matchTemplate_nil endMatched with ⟨rfl, rfl⟩
  refine ⟨op, rfl, twenty, behind, pc, whole, getOp2_of_scan parsed ?_⟩
  rw [twenty, behind]
  decide

/-- The script of an output that pays to a key. -/
theorem eq_of_pubKey (solved : solver script = some (.pubkey, result)) :
    ∃ op, result = [op.vchRet] ∧
      (33 ≤ op.vchRet.length ∧ op.vchRet.length ≤ 65) ∧
      op.pc = [OP_CHECKSIG] ∧ getOp2 script = some op := by
  rcases matchTemplate_of_solver solved (by decide) with
    ⟨template, listed, matched⟩
  simp only [mTemplates, List.mem_cons, Prod.mk.injEq, reduceCtorEq, false_and,
    true_and, or_false, List.not_mem_nil] at listed
  subst listed
  rcases matchTemplate_pubKey matched with ⟨op, parsed, sized, checkMatched⟩
  rcases matchTemplate_opcode checkMatched (by decide) (by decide) with
    ⟨check, behind, endMatched⟩
  rcases matchTemplate_nil endMatched with ⟨rfl, rfl⟩
  refine ⟨op, rfl, sized, behind, getOp2_of_scan parsed ?_⟩
  rw [behind, List.length_singleton]
  omega

/-! ## Evaluating them -/

variable {stack left : List Valtype} {final : EvalState}

/-- What the caller sees of the last state. -/
def finish (state : EvalState) : Option (List Valtype) :=
  if state.vfExec.isEmpty then some state.stack else none

theorem evalScript_of_le (short : script.length ≤ 10000) :
    evalScript args stack script =
      ((evalMachine args).exec (EvalState.start stack script)).bind finish :=
  if_neg (Nat.not_lt_of_le short)

/-- The verdict on an output whose script is not the hash of another one. -/
theorem verifyScript_of_other
    (other : Scan.isPayToScriptHash scriptPubKey = false) :
    verifyScript args scriptSig scriptPubKey = .ok true ↔
      ∃ stack left, evalScript args [] scriptSig = some stack ∧
        evalScript args stack scriptPubKey = some left ∧ topIsTrue left = true := by
  rw [verifyScript]
  cases evaluated : evalScript args [] scriptSig with
  | none =>
      refine iff_of_false (fun equal => by cases equal) ?_
      rintro ⟨stack, left, equal, -⟩
      cases equal
  | some stack =>
      dsimp only
      cases locked : evalScript args stack scriptPubKey with
      | none =>
          refine iff_of_false (fun equal => by cases equal) ?_
          rintro ⟨other, left, same, equal, -⟩
          cases same
          rw [locked] at equal
          cases equal
      | some left =>
          dsimp only
          rw [if_neg fun both : _ ∧ Scan.isPayToScriptHash scriptPubKey = true => by
            rw [other] at both
            cases both.2]
          cases top : topIsTrue left with
          | false =>
              refine iff_of_false (fun equal => by cases equal) ?_
              rintro ⟨other, last, same, equal, isTrue⟩
              cases same
              cases locked.symm.trans equal
              rw [top] at isTrue
              cases isTrue
          | true => exact iff_of_true rfl ⟨stack, left, rfl, locked, top⟩

theorem topIsTrue_boolVch (fSuccess : Bool) (rest : List Valtype) :
    topIsTrue (boolVch fSuccess :: rest) = fSuccess := by
  cases fSuccess <;> rfl

/-- An output that pays to the hash of a key takes a key and a signature. -/
theorem evalScript_pubKeyHash
    {pc : CScript} (parsed : getOp2 pc = some op) (twenty : op.vchRet.length = 20)
    (behind : op.pc = [OP_EQUALVERIFY, OP_CHECKSIG]) :
    evalScript args stack (OP_DUP :: OP_HASH160 :: pc) = some left ↔
      ∃ vchPubKey vchSig rest, stack = vchPubKey :: vchSig :: rest ∧
        rest.length + 4 ≤ 1000 ∧
        (args.crypto.hashes.hash160 vchPubKey).toList = op.vchRet ∧
        boolVch (args.check
          (dropSignatures (OP_DUP :: OP_HASH160 :: pc) [vchSig]) vchSig
          vchPubKey) :: rest = left := by
  have sized := length_le_of_getOp2 parsed
  have two : op.pc.length = 2 := by
    rw [behind]
    rfl
  have isPush : op.opcode ≤ OP_PUSHDATA4 :=
    isPush_of_operand parsed fun empty => by
      rw [empty] at twenty
      cases twenty
  rw [evalScript_of_le (by simp only [List.length_cons]; omega), EvalState.start,
    exec_onStack (show operation OP_DUP = .onStack .dup from rfl) (by decide)
      (by decide) (by decide)]
  match stack with
  | [] =>
      refine iff_of_false (fun equal => by cases equal) ?_
      rintro ⟨vchPubKey, vchSig, rest, equal, -⟩
      cases equal
  | vchPubKey :: below =>
      rw [StackOp.apply, Option.bind_some, Option.bind_eq_some_iff]
      simp only [continueWith_eq_some,
        exec_onStack (show operation OP_HASH160 = .onStack (.hash .hash160) from rfl)
          (show OP_16 < OP_HASH160 by decide) (show 0 + 1 < 201 by decide)
          (show OP_HASH160 ∉ disabledOpcodes by decide),
        StackOp.apply, Option.bind_some, HashOp.apply,
        exec_push parsed isPush (by omega : op.vchRet.length ≤ 520), behind,
        exec_onStack
          (show operation OP_EQUALVERIFY = .onStack .equalVerify from rfl)
          (show OP_16 < OP_EQUALVERIFY by decide)
          (show 0 + 1 + 1 < 201 by decide)
          (show OP_EQUALVERIFY ∉ disabledOpcodes by decide)]
      by_cases same : (args.crypto.hashes.hash160 vchPubKey).toList = op.vchRet
      · rw [if_pos same, Option.bind_some]
        simp only [continueWith_eq_some,
          exec_checkSig (show 0 + 1 + 1 + 1 < 201 by decide)]
        match below with
        | [] =>
            refine iff_of_false ?_ ?_
            · rintro ⟨final, conditions, -⟩
              cases conditions.2.2.2.2
            · rintro ⟨key, vchSig, rest, equal, -⟩
              cases equal
        | vchSig :: rest =>
            simp only [continueWith_eq_some, exec_nil, Option.some_inj]
            constructor
            · rintro ⟨final, ⟨-, -, fits, -, -, rfl⟩, finished⟩
              cases finished
              simp only [List.length_cons, List.length_nil] at fits
              exact ⟨vchPubKey, vchSig, rest, rfl, by omega, same, rfl⟩
            · rintro ⟨key, signature, others, equal, fits, -, rfl⟩
              cases equal
              simp only [List.length_cons, List.length_nil]
              exact ⟨_, ⟨by omega, by omega, by omega, by omega, by omega, rfl⟩,
                rfl⟩
      · rw [if_neg same]
        refine iff_of_false ?_ ?_
        · rintro ⟨final, conditions, -⟩
          cases conditions.2.2.2
        · rintro ⟨key, vchSig, rest, equal, -, hash, -⟩
          cases equal
          exact same hash

/-! ### A key and the script `OP_1` -/

/-- The generator of the curve as a compressed public key. -/
def generator : Valtype :=
  [0x02, 0x79, 0xbe, 0x66, 0x7e, 0xf9, 0xdc, 0xbb, 0xac, 0x55, 0xa0, 0x62,
    0x95, 0xce, 0x87, 0x0b, 0x07, 0x02, 0x9b, 0xfc, 0xdb, 0x2d, 0xce, 0x28,
    0xd9, 0x59, 0xf2, 0x81, 0x5b, 0x16, 0xf8, 0x17, 0x98]

/-- The `Hash160` of `generator`. -/
def generatorHash : Vector UInt8 20 :=
  #v[0x75, 0x1e, 0x76, 0xe8, 0x19, 0x91, 0x96, 0xd4, 0x54, 0x94, 0x1c, 0x45,
     0xd1, 0xb3, 0xa3, 0x23, 0xf1, 0x43, 0x3b, 0xd6]

/-- The `Hash160` of the script `OP_1`. -/
def scriptHash : Vector UInt8 20 :=
  #v[0xda, 0x17, 0x45, 0xe9, 0xb5, 0x49, 0xbd, 0x0b, 0xfa, 0x1a, 0x56, 0x99,
     0x71, 0xc7, 0x7e, 0xba, 0x30, 0xcd, 0x5a, 0x4b]

/-- Hashes that are right for the key and for the script. -/
def sampleHashes : Hashes where
  sha256 := fun vch => if vch = generator then Vector.replicate 32 1
    else Vector.replicate 32 0
  ripemd160 := fun vch => if vch = (Vector.replicate 32 1).toList then generatorHash
    else scriptHash
  sha1 := fun _ => Vector.replicate 20 0

/-- A transaction with one input, whose signatures are all accepted. -/
def sampleArgs (flags : UInt32) : EvalArgs where
  crypto := ⟨sampleHashes, fun _ _ _ => true⟩
  txTo := ⟨1, [⟨⟨0, 0⟩, [], 0⟩], [], 0⟩
  nIn := 0
  flags := flags
  nHashType := 0

/--
An output that `Solver` takes to pay to the hash of a key is spent exactly by
the scripts that leave a key with that hash, above a signature that the key
verifies.
-/
theorem verifyScript_pubKeyHash
    (args : EvalArgs) (scriptSig scriptPubKey : CScript)
    (vSolutions : List (List UInt8))
    (solved : solver scriptPubKey = some (.pubkeyhash, vSolutions)) :
    verifyScript args scriptSig scriptPubKey = .ok true ↔
      ∃ vchPubKey vchSig rest,
        evalScript args [] scriptSig = some (vchPubKey :: vchSig :: rest) ∧
          rest.length + 4 ≤ 1000 ∧
          vSolutions = [(args.crypto.hashes.hash160 vchPubKey).toList] ∧
          args.check (dropSignatures scriptPubKey [vchSig]) vchSig vchPubKey =
            true := by
  rcases eq_of_pubKeyHash solved with
    ⟨op, rfl, twenty, behind, pc, rfl, parsed⟩
  rw [verifyScript_of_other (by
    rw [Scan.isPayToScriptHash, decide_eq_false_iff_not]
    rintro ⟨-, isHash, -⟩
    cases isHash)]
  simp only [evalScript_pubKeyHash parsed twenty behind]
  constructor
  · rintro ⟨stack, left, evaluated, ⟨vchPubKey, vchSig, rest, rfl, fits, same,
      rfl⟩, isTrue⟩
    rw [topIsTrue_boolVch] at isTrue
    exact ⟨vchPubKey, vchSig, rest, evaluated, fits, by rw [same], isTrue⟩
  · rintro ⟨vchPubKey, vchSig, rest, evaluated, fits, same, isTrue⟩
    refine ⟨_, _, evaluated, ⟨vchPubKey, vchSig, rest, rfl, fits,
      (List.singleton_inj.mp same).symm, rfl⟩, ?_⟩
    rw [topIsTrue_boolVch, isTrue]

/-- A key with the hash that is paid to, above a signature. -/
theorem verifyScript_pubKeyHash_generator :
    verifyScript (sampleArgs 0) (0x01 :: 0x01 :: 0x21 :: generator)
      (OP_DUP :: OP_HASH160 :: 0x14 ::
        (generatorHash.toList ++ [OP_EQUALVERIFY, OP_CHECKSIG])) = .ok true :=
  (verifyScript_pubKeyHash (sampleArgs 0) _ _ [generatorHash.toList]
    (by decide)).mpr ⟨generator, [0x01], [], by decide, by decide, by decide, by decide⟩

/-- An output that pays to a key takes a signature. -/
theorem evalScript_pubKey
    (parsed : getOp2 script = some op)
    (sized : 33 ≤ op.vchRet.length ∧ op.vchRet.length ≤ 65)
    (behind : op.pc = [OP_CHECKSIG]) :
    evalScript args stack script = some left ↔
      ∃ vchSig rest, stack = vchSig :: rest ∧ rest.length + 2 ≤ 1000 ∧
        boolVch (args.check (dropSignatures script [vchSig]) vchSig op.vchRet) ::
          rest = left := by
  have short := length_le_of_getOp2 parsed
  have one : op.pc.length = 1 := by
    rw [behind]
    rfl
  have isPush : op.opcode ≤ OP_PUSHDATA4 :=
    isPush_of_operand parsed (List.ne_nil_of_length_pos (by omega))
  rw [evalScript_of_le (by omega), EvalState.start,
    exec_push parsed isPush (by omega), behind, Option.bind_eq_some_iff]
  simp only [continueWith_eq_some, exec_checkSig (show 0 < 201 by decide)]
  match stack with
  | [] =>
      refine iff_of_false ?_ ?_
      · rintro ⟨final, conditions, -⟩
        cases conditions.2
      · rintro ⟨vchSig, rest, equal, -⟩
        cases equal
  | vchSig :: rest =>
      simp only [continueWith_eq_some, exec_nil, Option.some_inj]
      constructor
      · rintro ⟨final, ⟨fits, -, rfl⟩, finished⟩
        cases finished
        simp only [List.length_cons, List.length_nil] at fits
        exact ⟨vchSig, rest, rfl, by omega, rfl⟩
      · rintro ⟨signature, others, equal, fits, rfl⟩
        cases equal
        simp only [List.length_cons, List.length_nil]
        exact ⟨_, ⟨by omega, by omega, rfl⟩, rfl⟩

/--
An output that `Solver` takes to pay to a key is spent exactly by the scripts
that leave a signature which the key verifies.
-/
theorem verifyScript_pubKey
    (args : EvalArgs) (scriptSig scriptPubKey : CScript)
    (vSolutions : List (List UInt8))
    (solved : solver scriptPubKey = some (.pubkey, vSolutions)) :
    verifyScript args scriptSig scriptPubKey = .ok true ↔
      ∃ vchPubKey vchSig rest, vSolutions = [vchPubKey] ∧
        evalScript args [] scriptSig = some (vchSig :: rest) ∧
          rest.length + 2 ≤ 1000 ∧
          args.check (dropSignatures scriptPubKey [vchSig]) vchSig vchPubKey =
            true := by
  rcases eq_of_pubKey solved with ⟨op, rfl, sized, behind, parsed⟩
  have other : Scan.isPayToScriptHash scriptPubKey = false := by
    cases scriptPubKey with
    | nil => rfl
    | cons first pc =>
        rw [Scan.isPayToScriptHash, decide_eq_false_iff_not]
        rintro ⟨-, isHash, -⟩
        have isPush := isPush_of_operand parsed
          (List.ne_nil_of_length_pos (by omega))
        have same : first = OP_HASH160 := Option.some_inj.mp isHash
        subst same
        rw [getOp2_opcode (by decide)] at parsed
        cases parsed
        exact absurd isPush (show ¬ OP_HASH160 ≤ OP_PUSHDATA4 by decide)
  rw [verifyScript_of_other other]
  simp only [evalScript_pubKey parsed sized behind]
  constructor
  · rintro ⟨stack, left, evaluated, ⟨vchSig, rest, rfl, fits, rfl⟩, isTrue⟩
    rw [topIsTrue_boolVch] at isTrue
    exact ⟨_, vchSig, rest, rfl, evaluated, fits, isTrue⟩
  · rintro ⟨vchPubKey, vchSig, rest, same, evaluated, fits, isTrue⟩
    cases same
    refine ⟨_, _, evaluated, ⟨vchSig, rest, rfl, fits, rfl⟩, ?_⟩
    rw [topIsTrue_boolVch, isTrue]

/-- A signature for a key. -/
theorem verifyScript_pubKey_generator :
    verifyScript (sampleArgs 0) [0x01, 0x01] (0x21 :: (generator ++ [OP_CHECKSIG])) =
      .ok true :=
  (verifyScript_pubKey (sampleArgs 0) _ _ [generator] (by decide)).mpr
    ⟨generator, [0x01], [], by decide, by decide, by decide, by decide⟩

/-! ## The hash of a script -/

/-- The bytes of an output that pays to the hash of a script. -/
theorem eq_of_scriptHash (isHash : Scan.isPayToScriptHash script = true) :
    script = OP_HASH160 :: 0x14 :: ((script.drop 2).take 20 ++ [OP_EQUAL]) ∧
      ((script.drop 2).take 20).length = 20 := by
  rw [Scan.isPayToScriptHash, decide_eq_true_eq] at isHash
  rcases isHash with ⟨size, first, second, last⟩
  match script, size, first, second with
  | a :: b :: hash, size, first, second =>
      simp only [List.length_cons] at size
      have twenty : (hash.take 20).length = 20 := by
        rw [List.length_take]
        omega
      have behind : hash.drop 20 = [OP_EQUAL] := by
        rw [List.drop_eq_getElem_cons (by omega), List.drop_eq_nil_of_le (by omega)]
        have equal : hash[20]? = some OP_EQUAL := last
        rw [List.getElem?_eq_getElem (by omega)] at equal
        rw [Option.some_inj.mp equal]
      refine ⟨?_, twenty⟩
      cases Option.some_inj.mp first
      cases Option.some_inj.mp second
      change _ = OP_HASH160 :: 0x14 :: (hash.take 20 ++ [OP_EQUAL])
      rw [← behind, List.take_append_drop]

theorem evalScript_scriptHash (isHash : Scan.isPayToScriptHash script = true) :
    evalScript args stack script = some left ↔
      ∃ vch rest, stack = vch :: rest ∧ rest.length + 2 ≤ 1000 ∧
        boolVch ((args.crypto.hashes.hash160 vch).toList =
          (script.drop 2).take 20) :: rest = left := by
  rcases eq_of_scriptHash isHash with ⟨whole, twenty⟩
  generalize (script.drop 2).take 20 = hash at whole twenty ⊢
  subst whole
  have parsed : getOp2 (0x14 :: (hash ++ [OP_EQUAL])) =
      some ⟨0x14, hash, [OP_EQUAL]⟩ := by
    have read : readPushSize 0x14 ([] ++ (hash ++ [OP_EQUAL])) =
        some (hash.length, hash ++ [OP_EQUAL]) := by
      rw [twenty]
      rfl
    exact PushCodec.getOp2_of_size (by decide) read (by
      rw [List.length_append, twenty]
      decide)
  rw [evalScript_of_le (by
      simp only [List.length_cons, List.length_append, twenty, List.length_nil]
      decide),
    EvalState.start,
    exec_onStack (show operation OP_HASH160 = .onStack (.hash .hash160) from rfl)
      (by decide) (by decide) (by decide)]
  match stack with
  | [] =>
      refine iff_of_false (fun equal => by cases equal) ?_
      rintro ⟨vch, rest, equal, -⟩
      cases equal
  | vch :: rest =>
      rw [StackOp.apply, Option.bind_some, Option.bind_eq_some_iff]
      simp only [continueWith_eq_some, HashOp.apply,
        exec_push parsed (show (0x14 : UInt8) ≤ OP_PUSHDATA4 by decide)
          (by omega : hash.length ≤ 520),
        exec_onStack (show operation OP_EQUAL = .onStack .equal from rfl)
          (show OP_16 < OP_EQUAL by decide) (show 0 + 1 < 201 by decide)
          (show OP_EQUAL ∉ disabledOpcodes by decide),
        StackOp.apply, Option.bind_some, exec_nil, Option.some_inj]
      constructor
      · rintro ⟨final, ⟨-, fits, -, rfl⟩, finished⟩
        cases finished
        simp only [List.length_cons, List.length_nil] at fits
        exact ⟨vch, rest, rfl, by omega, rfl⟩
      · rintro ⟨other, others, equal, fits, rfl⟩
        cases equal
        simp only [List.length_cons, List.length_nil]
        exact ⟨_, ⟨by omega, by omega, by omega, rfl⟩, rfl⟩

/-- The assertion that a subscript is there holds. -/
theorem verifyScript_isOk (args : EvalArgs) (scriptSig scriptPubKey : CScript) :
    ∃ verdict, verifyScript args scriptSig scriptPubKey = .ok verdict := by
  rw [verifyScript]
  split
  · exact ⟨false, rfl⟩
  next stackCopy _ =>
    split
    · exact ⟨false, rfl⟩
    next left evaluated =>
      split_ifs with top isHash
      · exact ⟨false, rfl⟩
      · rcases (evalScript_scriptHash isHash.2).mp evaluated with
          ⟨vch, rest, rfl, -⟩
        rw [verifySubscript]
        split_ifs
        · exact ⟨false, rfl⟩
        · split
          · exact ⟨false, rfl⟩
          · exact ⟨_, rfl⟩
      · exact ⟨true, rfl⟩

theorem isPushOnly_nil : isPushOnly [] = true := by
  rw [isPushOnly]
  rfl

/-- The scripts of pushes are read one push after another. -/
theorem isPushOnly_of_getOp2
    (parsed : getOp2 script = some op) (low : op.opcode ≤ OP_16) :
    isPushOnly script = isPushOnly op.pc := by
  rw [isPushOnly]
  split
  next stops =>
    rw [parsed] at stops
    cases stops
  next read same =>
    cases parsed.symm.trans same
    rw [if_neg (UInt8.not_lt.mpr low)]

/--
An output that pays to the hash of a script is spent exactly by the scripts of
pushes that leave a script with that hash on top of a stack which this script
accepts.  The assertion on the way is never violated.
-/
theorem verifyScript_scriptHash
    (args : EvalArgs) (scriptSig scriptPubKey : CScript)
    (isHash : Scan.isPayToScriptHash scriptPubKey = true)
    (enforced : args.flags &&& SCRIPT_VERIFY_P2SH ≠ 0) :
    (∃ verdict, verifyScript args scriptSig scriptPubKey = .ok verdict) ∧
      (verifyScript args scriptSig scriptPubKey = .ok true ↔
        isPushOnly scriptSig = true ∧
          ∃ subscript rest left,
            evalScript args [] scriptSig = some (subscript :: rest) ∧
              rest.length + 2 ≤ 1000 ∧
              (args.crypto.hashes.hash160 subscript).toList =
                (scriptPubKey.drop 2).take 20 ∧
              evalScript args rest subscript = some left ∧
              topIsTrue left = true) := by
  refine ⟨verifyScript_isOk args scriptSig scriptPubKey, ?_⟩
  rw [verifyScript]
  cases evaluated : evalScript args [] scriptSig with
  | none =>
      refine iff_of_false (fun equal => by cases equal) ?_
      rintro ⟨-, subscript, rest, left, equal, -⟩
      cases equal
  | some stackCopy =>
      dsimp only
      cases hashed : evalScript args stackCopy scriptPubKey with
      | none =>
          refine iff_of_false (fun equal => by cases equal) ?_
          rintro ⟨-, subscript, rest, left, equal, fits, -⟩
          cases equal
          have found : evalScript args (subscript :: rest) scriptPubKey = some _ :=
            (evalScript_scriptHash isHash).mpr ⟨subscript, rest, rfl, fits, rfl⟩
          rw [hashed] at found
          cases found
      | some answer =>
          rcases (evalScript_scriptHash isHash).mp hashed with
            ⟨subscript, rest, rfl, fits, rfl⟩
          dsimp only
          rw [topIsTrue_boolVch]
          by_cases same : (args.crypto.hashes.hash160 subscript).toList =
              (scriptPubKey.drop 2).take 20
          swap
          · rw [decide_eq_false same, if_pos rfl]
            refine iff_of_false (fun equal => by cases equal) ?_
            rintro ⟨-, other, others, left, equal, -, hash, -⟩
            cases equal
            exact same hash
          · rw [decide_eq_true same, if_neg Bool.true_eq_false.mp,
              if_pos ⟨enforced, isHash⟩, verifySubscript]
            split_ifs with notPushes
            · refine iff_of_false (fun equal => by cases equal) ?_
              rintro ⟨pushes, -⟩
              rw [notPushes] at pushes
              cases pushes
            · rw [Bool.not_eq_false] at notPushes
              rw [and_iff_right notPushes]
              cases inner : evalScript args rest subscript with
              | none =>
                  refine iff_of_false (fun equal => by cases equal) ?_
                  rintro ⟨other, others, left, equal, -, -, accepted, -⟩
                  cases equal
                  rw [inner] at accepted
                  cases accepted
              | some left =>
                  dsimp only
                  constructor
                  · intro isTrue
                    exact ⟨subscript, rest, left, rfl, fits, same, inner,
                      Except.ok.inj isTrue⟩
                  · rintro ⟨other, others, last, equal, -, -, accepted, isTrue⟩
                    cases equal
                    cases inner.symm.trans accepted
                    rw [isTrue]
                    rfl

/-- The script `OP_1`, pushed for its hash. -/
theorem verifyScript_scriptHash_true :
    verifyScript (sampleArgs SCRIPT_VERIFY_P2SH) [0x01, OP_1]
      (OP_HASH160 :: 0x14 :: (scriptHash.toList ++ [OP_EQUAL])) = .ok true :=
  (verifyScript_scriptHash (sampleArgs SCRIPT_VERIFY_P2SH) [0x01, OP_1]
    (OP_HASH160 :: 0x14 :: (scriptHash.toList ++ [OP_EQUAL])) (by decide)
    (by decide)).2.mpr
    ⟨(isPushOnly_of_getOp2 rfl (by decide)).trans
        isPushOnly_nil,
      [OP_1], [], [[0x01]], by decide, by decide, by decide, by decide, by decide⟩

end DSValue.Script.StandardOutputs
