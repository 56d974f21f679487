import DSValue.Script.SigOps

/-!
# Nested conditions

`EvalScript` reads a script from front to back and keeps a stack of flags for the
conditions around the position.  Here a script is a program with nested blocks:
a condition has branches that are separated by `OP_ELSE`, and every second one of
them is evaluated.  The flat loop on the bytes of a program does what the nested
program means.  A branch that is not taken is not free: its operations count,
its pushes may not be too large, and no disabled opcode may stand in it.
-/

namespace DSValue.Script.Blocks

open DSValue.Lib
open DSValue.Script.Scan hiding getOp2 getOp2_length
open DSValue.Script.PushCodec (getOp2 getOp2_length push)
open DSValue.Script.Number
open DSValue.Script.Interpreter
open DSValue.Script.Execution
open DSValue.Script.SigOps (mem_operations)
open DSValue.Script.StandardOutputs (evalScript_of_le finish)

/-! ## Programs -/

/--
An operation as it stands in a script, which opens no branch, closes none and
takes nothing behind it for its operand.
-/
structure Token where
  bytes : CScript
  opcode : UInt8
  vchRet : Valtype
  parsed : ∀ rest, (bytes ++ rest).length < 2 ^ 32 →
    getOp2 (bytes ++ rest) = some ⟨opcode, vchRet, rest⟩
  plain : ¬ (OP_IF ≤ opcode ∧ opcode ≤ OP_ENDIF)
  own : opcode ≠ OP_LOTTO

mutual

/-- A program. -/
inductive Code where
  | nil
  | plain (token : Token) (code : Code)
  /-- `OP_LOTTO` with its operand. -/
  | lotto (operand : Token) (code : Code)
  /-- `OP_IF` or `OP_NOTIF` with its branches. -/
  | cond (negated : Bool) (branches : Branches) (code : Code)

/-- The branches of a condition. -/
inductive Branches where
  | last (code : Code)
  | more (code : Code) (others : Branches)

end

/-- The opcode that opens a condition. -/
def ifOpcode (negated : Bool) : UInt8 := if negated then OP_NOTIF else OP_IF

mutual

/-- The bytes of a program in front of others. -/
def Code.onto : Code → CScript → CScript
  | .nil, suffix => suffix
  | .plain token code, suffix => token.bytes ++ code.onto suffix
  | .lotto operand code, suffix => OP_LOTTO :: (operand.bytes ++ code.onto suffix)
  | .cond negated branches code, suffix =>
      ifOpcode negated :: branches.onto (code.onto suffix)

def Branches.onto : Branches → CScript → CScript
  | .last code, suffix => code.onto (OP_ENDIF :: suffix)
  | .more code others, suffix => code.onto (OP_ELSE :: others.onto suffix)

end

/-! ## What a program means -/

/-- The state without a position and without flags. -/
structure Data where
  pbegincodehash : CScript
  stack : List Valtype
  altstack : List Valtype
  nOpCount : Nat

def Data.at (data : Data) (pc : CScript) (vfExec : List Bool) : EvalState where
  pc := pc
  pbegincodehash := data.pbegincodehash
  stack := data.stack
  altstack := data.altstack
  vfExec := vfExec
  nOpCount := data.nOpCount

def Data.of (state : EvalState) : Data where
  pbegincodehash := state.pbegincodehash
  stack := state.stack
  altstack := state.altstack
  nOpCount := state.nOpCount

/-- The checks of an opcode that hold in every branch. -/
def Data.count (opcode : UInt8) (data : Data) : Option Data :=
  if tooManyOps opcode data.nOpCount then none
  else if opcode ∈ disabledOpcodes then none
  else some { data with nOpCount := countOp opcode data.nOpCount }

/-- The size limits. -/
def Data.checked (data : Data) : Option Data :=
  if data.stack.length + data.altstack.length ≤ 1000 then some data else none

/-- An operation that only counts. -/
def Data.control (opcode : UInt8) (data : Data) : Option Data :=
  (data.count opcode).bind Data.checked

/-- An operation in a branch that is not taken. -/
def Token.skip (token : Token) (data : Data) : Option Data :=
  if 520 < token.vchRet.length then none else data.control token.opcode

/-- An operation that is executed, outside of all conditions. -/
def Token.eval (args : EvalArgs) (token : Token) (rest : CScript) (data : Data) :
    Option Data :=
  (step args (data.at (token.bytes ++ rest) [])).map Data.of

mutual

/-- A program in a branch that is not taken. -/
def Code.skip : Code → Data → Option Data
  | .nil, data => some data
  | .plain token code, data => (token.skip data).bind code.skip
  | .lotto operand code, data =>
      (data.control OP_LOTTO).bind fun data => (operand.skip data).bind code.skip
  | .cond negated branches code, data =>
      (data.control (ifOpcode negated)).bind fun data =>
        (branches.skip data).bind code.skip

def Branches.skip : Branches → Data → Option Data
  | .last code, data => (code.skip data).bind (Data.control OP_ENDIF)
  | .more code others, data =>
      (code.skip data).bind fun data => (data.control OP_ELSE).bind others.skip

end

mutual

/-- A program that is executed, in front of other bytes. -/
def Code.eval (args : EvalArgs) : Code → CScript → Data → Option Data
  | .nil, _, data => some data
  | .plain token code, suffix, data =>
      (token.eval args (code.onto suffix) data).bind (code.eval args suffix)
  | .lotto _ code, suffix, data =>
      (data.control OP_LOTTO).bind (code.eval args suffix)
  | .cond negated branches code, suffix, data =>
      (data.count (ifOpcode negated)).bind fun data =>
        match data.stack with
        | [] => none
        | vch :: stack =>
            ({ data with stack := stack }.checked).bind fun data =>
              (branches.eval args (castToBool vch != negated) (code.onto suffix)
                data).bind (code.eval args suffix)

/-- The branches, of which every second one is taken. -/
def Branches.eval (args : EvalArgs) :
    Branches → Bool → CScript → Data → Option Data
  | .last code, taken, suffix, data =>
      (if taken then code.eval args (OP_ENDIF :: suffix) data
        else code.skip data).bind (Data.control OP_ENDIF)
  | .more code others, taken, suffix, data =>
      (if taken then code.eval args (OP_ELSE :: others.onto suffix) data
        else code.skip data).bind fun data =>
          (data.control OP_ELSE).bind (others.eval args (!taken) suffix)

end

variable {args : EvalArgs} {op : ParsedOp} {opcode : UInt8} {pc rest : CScript}
  {data : Data} {vfExec : List Bool}

/-! ## A round -/

theorem fetch_at (parsed : getOp2 pc = some op) :
    fetch (data.at pc vfExec) =
      if 520 < op.vchRet.length then none
      else (data.count op.opcode).map fun data => (op, data.at op.pc vfExec) := by
  simp only [fetch, Data.at, parsed, Data.count, apply_ite (Option.map _),
    Option.map_none, Option.map_some]
  rfl

/-- What is left to do with an operation that was read and counted. -/
def carryOn (args : EvalArgs) (op : ParsedOp) (vfExec : List Bool) (data : Data) :
    Option EvalState :=
  (dispatch args op (data.at op.pc vfExec)).bind (continueWith args)

theorem exec_at (parsed : getOp2 pc = some op) :
    (evalMachine args).exec (data.at pc vfExec) =
      if 520 < op.vchRet.length then none
      else (data.count op.opcode).bind (carryOn args op vfExec) := by
  have more : (evalMachine args).done (data.at pc vfExec) = false := by
    change pc.isEmpty = false
    cases pc with
    | nil => cases parsed
    | cons => rfl
  rw [Machine.exec_of_not_done more]
  change (step args (data.at pc vfExec)).bind _ = _
  rw [step, fetch_at parsed]
  split_ifs
  · rfl
  · cases data.count op.opcode with
    | none => rfl
    | some data =>
        rw [Option.map_some, Option.bind_some, carryOn]
        change ((dispatch args op (data.at op.pc vfExec)).bind _).bind _ = _
        cases dispatch args op (data.at op.pc vfExec) with
        | none => rfl
        | some next =>
            rw [Option.bind_some, Option.bind_some, continueWith]
            split_ifs <;> rfl

/-- An opcode behind the pushes. -/
theorem exec_at_opcode (behind : OP_PUSHDATA4 < opcode) :
    (evalMachine args).exec (data.at (opcode :: rest) vfExec) =
      (data.count opcode).bind (carryOn args ⟨opcode, [], rest⟩ vfExec) := by
  rw [exec_at (getOp2_opcode behind), if_neg (by simp)]

theorem continueWith_at :
    continueWith args (data.at pc vfExec) =
      data.checked.bind fun data => (evalMachine args).exec (data.at pc vfExec) := by
  rw [continueWith, Data.checked, withinLimits]
  by_cases fits : data.stack.length + data.altstack.length ≤ 1000
  · rw [if_pos fits, Option.bind_some]
    exact if_pos (decide_eq_true fits)
  · rw [if_neg fits, Option.bind_none]
    exact if_neg fun fit => fits (of_decide_eq_true fit)

/-! ## Flags -/

theorem fExec_at : (data.at pc vfExec).fExec = !vfExec.contains false := rfl

theorem fExec_of_all (all : false ∉ vfExec) : (data.at pc vfExec).fExec = true := by
  rw [fExec_at, Bool.not_eq_true', List.contains_eq_mem, decide_eq_false all]

theorem fExec_of_mem (skipped : false ∈ vfExec) :
    (data.at pc vfExec).fExec = false := by
  rw [fExec_at, Bool.not_eq_false', List.contains_eq_mem, decide_eq_true skipped]

/-- The opcodes of conditions. -/
def isControl : Operation → Bool
  | .opIf _ => true
  | .opElse => true
  | .opEndIf => true
  | _ => false

theorem operations_control :
    ∀ entry ∈ operations, isControl entry.2 = true →
      OP_IF ≤ entry.1 ∧ entry.1 ≤ OP_ENDIF := by
  decide

/-- A plain operation uses no flags, wherever it stands. -/
theorem plain_operation (token : Token) :
    isControl (operation token.opcode) = false ∧
      operation token.opcode ≠ .lotto := by
  have listed (isOther : ∀ stackOp, operation token.opcode ≠ .onStack stackOp)
      (valid : operation token.opcode ≠ .invalid) :=
    mem_operations isOther valid
  constructor
  · cases isOp : operation token.opcode with
    | opIf | opElse | opEndIf =>
        rw [isOp] at listed
        have control := operations_control _
          (listed (fun _ equal => by cases equal) fun equal => by cases equal) rfl
        exact absurd control token.plain
    | _ => rfl
  · exact fun isLotto => token.own (SigOps.opcode_of_lotto isLotto)

/-- Executing an operation that uses no flags keeps them. -/
theorem execute_at
    {operation : Operation} (plain : isControl operation = false)
    (own : operation ≠ .lotto) :
    execute args operation (data.at pc vfExec) =
      (execute args operation (data.at pc [])).map fun state =>
        (Data.of state).at pc vfExec := by
  cases operation with
  | onStack op =>
      rw [execute, execute]
      change (op.apply args.crypto.hashes data.stack).map _ =
        ((op.apply args.crypto.hashes data.stack).map _).map _
      cases op.apply args.crypto.hashes data.stack <;> rfl
  | opIf | opElse | opEndIf => cases plain
  | toAltStack =>
      rcases data with ⟨code, stack, altstack, nOpCount⟩
      cases stack <;> rfl
  | fromAltStack =>
      rcases data with ⟨code, stack, altstack, nOpCount⟩
      cases altstack <;> rfl
  | codeSeparator => rfl
  | checkSig verify =>
      rcases data with ⟨code, stack, altstack, nOpCount⟩
      cases stack with
      | nil => rfl
      | cons vchPubKey stack =>
          cases stack with
          | nil => rfl
          | cons vchSig stack =>
              simp only [execute, executeCheckSig, Data.at]
              cases answer verify
                (args.check (dropSignatures code [vchSig]) vchSig vchPubKey) stack <;>
                  rfl
  | checkMultiSig verify =>
      rcases data with ⟨code, stack, altstack, nOpCount⟩
      cases stack with
      | nil => rfl
      | cons count stack =>
          simp only [execute, executeCheckMultiSig, Data.at]
          cases castToBigNum count with
          | none => rfl
          | some bn =>
              simp only [Option.bind_eq_bind, Option.bind_some]
              by_cases outside : getint bn < 0 ∨ 20 < getint bn
              · simp only [outside, ↓reduceIte, Option.map_none]
              by_cases many : 201 < nOpCount + (getint bn).toNat
              · simp only [outside, many, ↓reduceIte, Option.map_none]
              simp only [outside, many, ↓reduceIte]
              cases readMultiSig (getint bn).toNat stack with
              | none => rfl
              | some operands =>
                  simp only [Option.bind_some]
                  generalize answer verify _ operands.rest = answered
                  cases answered <;> rfl
  | lotto => exact absurd rfl own
  | invalid => rfl

/-! ## Operations -/

/-- A plain operation that was counted, outside of all conditions. -/
def Token.perform (args : EvalArgs) (token : Token) (rest : CScript) (data : Data) :
    Option Data :=
  (dispatch args ⟨token.opcode, token.vchRet, rest⟩ (data.at rest [])).map Data.of

theorem perform_at (token : Token) (all : false ∉ vfExec) :
    dispatch args ⟨token.opcode, token.vchRet, rest⟩ (data.at rest vfExec) =
      (token.perform args rest data).map fun data => data.at rest vfExec := by
  rcases plain_operation token with ⟨plain, own⟩
  have executing : (data.at rest vfExec).fExec = true := fExec_of_all all
  have outside : (data.at rest []).fExec = true := rfl
  rw [Token.perform, dispatch, dispatch, executing, outside]
  by_cases isPush : token.opcode ≤ OP_PUSHDATA4
  · simp only [isPush, and_self, ↓reduceIte]
    rfl
  · simp only [isPush, and_false, true_or, ↓reduceIte]
    rw [execute_at plain own, Option.map_map]
    rfl

theorem eval_eq (token : Token) (short : (token.bytes ++ rest).length < 2 ^ 32) :
    token.eval args rest data =
      if 520 < token.vchRet.length then none
      else (data.count token.opcode).bind fun data =>
        (token.perform args rest data).bind Data.checked := by
  rw [Token.eval, step, fetch_at (token.parsed rest short)]
  split_ifs
  · rfl
  · cases data.count token.opcode with
    | none => rfl
    | some data =>
        have performed := @perform_at args rest data [] token List.not_mem_nil
        change ((dispatch args ⟨token.opcode, token.vchRet, rest⟩
            (data.at rest [])).bind _).map Data.of =
          (token.perform args rest data).bind Data.checked
        rw [performed]
        cases token.perform args rest data with
        | none => rfl
        | some data =>
            rw [Option.map_some, Option.bind_some, Option.bind_some, Data.checked]
            by_cases fits : data.stack.length + data.altstack.length ≤ 1000
            · rw [if_pos fits]
              exact congrArg (Option.map Data.of) (if_pos (decide_eq_true fits))
            · rw [if_neg fits]
              exact congrArg (Option.map Data.of)
                (if_neg fun fit => fits (of_decide_eq_true fit))

/-- A plain operation that is executed. -/
theorem exec_token
    (token : Token) (short : (token.bytes ++ rest).length < 2 ^ 32)
    (all : false ∉ vfExec) :
    (evalMachine args).exec (data.at (token.bytes ++ rest) vfExec) =
      (token.eval args rest data).bind fun data =>
        (evalMachine args).exec (data.at rest vfExec) := by
  rw [exec_at (token.parsed rest short), eval_eq token short]
  split_ifs
  · rfl
  · rw [Option.bind_assoc]
    congr 1
    funext data
    rw [carryOn, perform_at token all, Option.bind_map, Option.bind_assoc]
    congr 1
    funext data
    exact continueWith_at

/-- A round that leaves the position behind its opcode. -/
theorem exec_control
    {flags : List Bool} (behind : OP_PUSHDATA4 < opcode)
    (executed : ∀ data : Data,
      dispatch args ⟨opcode, [], rest⟩ (data.at rest vfExec) =
        some (data.at pc flags)) :
    (evalMachine args).exec (data.at (opcode :: rest) vfExec) =
      (data.control opcode).bind fun data =>
        (evalMachine args).exec (data.at pc flags) := by
  rw [exec_at_opcode behind, Data.control, Option.bind_assoc]
  congr 1
  funext data
  rw [carryOn, executed, Option.bind_some]
  exact continueWith_at

/-- An operation that is not executed. -/
theorem dispatch_skip
    (skipped : false ∈ vfExec) (plain : ¬ (OP_IF ≤ op.opcode ∧ op.opcode ≤ OP_ENDIF)) :
    dispatch args op (data.at rest vfExec) = some (data.at rest vfExec) := by
  rw [dispatch, fExec_of_mem skipped, if_neg fun both => Bool.false_ne_true both.1,
    if_neg fun either => either.elim Bool.false_ne_true plain]

theorem exec_token_skip
    (token : Token) (short : (token.bytes ++ rest).length < 2 ^ 32)
    (skipped : false ∈ vfExec) :
    (evalMachine args).exec (data.at (token.bytes ++ rest) vfExec) =
      (token.skip data).bind fun data =>
        (evalMachine args).exec (data.at rest vfExec) := by
  rw [exec_at (token.parsed rest short), Token.skip]
  split_ifs
  · rfl
  · rw [Data.control, Option.bind_assoc]
    congr 1
    funext data
    rw [carryOn, dispatch_skip skipped token.plain, Option.bind_some]
    exact continueWith_at

theorem dispatch_control
    (inside : OP_IF ≤ op.opcode ∧ op.opcode ≤ OP_ENDIF) :
    dispatch args op (data.at rest vfExec) =
      execute args (operation op.opcode) (data.at rest vfExec) := by
  rw [dispatch, if_neg ?_, if_pos (Or.inr inside)]
  intro both
  exact absurd (UInt8.le_trans inside.1 both.2) (by decide)

theorem exec_else {flag : Bool} :
    (evalMachine args).exec (data.at (OP_ELSE :: rest) (flag :: vfExec)) =
      (data.control OP_ELSE).bind fun data =>
        (evalMachine args).exec (data.at rest ((!flag) :: vfExec)) :=
  exec_control (by decide) fun _ =>
    dispatch_control (show OP_IF ≤ OP_ELSE ∧ OP_ELSE ≤ OP_ENDIF by decide)

theorem exec_endIf {flag : Bool} :
    (evalMachine args).exec (data.at (OP_ENDIF :: rest) (flag :: vfExec)) =
      (data.control OP_ENDIF).bind fun data =>
        (evalMachine args).exec (data.at rest vfExec) :=
  exec_control (by decide) fun _ =>
    dispatch_control (show OP_IF ≤ OP_ENDIF ∧ OP_ENDIF ≤ OP_ENDIF by decide)

theorem operation_if (negated : Bool) :
    operation (ifOpcode negated) = .opIf negated ∧
      OP_PUSHDATA4 < ifOpcode negated ∧
        OP_IF ≤ ifOpcode negated ∧ ifOpcode negated ≤ OP_ENDIF := by
  cases negated <;> decide

theorem exec_if_skip (negated : Bool) (skipped : false ∈ vfExec) :
    (evalMachine args).exec (data.at (ifOpcode negated :: rest) vfExec) =
      (data.control (ifOpcode negated)).bind fun data =>
        (evalMachine args).exec (data.at rest (false :: vfExec)) := by
  rcases operation_if negated with ⟨isIf, behind, inside⟩
  refine exec_control behind fun data => (dispatch_control inside).trans ?_
  rw [isIf, execute, executeIf, fExec_of_mem skipped, if_neg Bool.false_ne_true]
  rfl

theorem exec_if (negated : Bool) (all : false ∉ vfExec) :
    (evalMachine args).exec (data.at (ifOpcode negated :: rest) vfExec) =
      (data.count (ifOpcode negated)).bind fun data =>
        match data.stack with
        | [] => none
        | vch :: stack =>
            ({ data with stack := stack }.checked).bind fun data =>
              (evalMachine args).exec
                (data.at rest ((castToBool vch != negated) :: vfExec)) := by
  rcases operation_if negated with ⟨isIf, behind, inside⟩
  rw [exec_at_opcode behind]
  congr 1
  funext data
  rw [carryOn, dispatch_control inside, isIf, execute, executeIf,
    fExec_of_all all, if_pos rfl]
  rcases data with ⟨code, stack, altstack, nOpCount⟩
  cases stack with
  | nil => rfl
  | cons vch stack =>
      change continueWith args (Data.at ⟨code, stack, altstack, nOpCount⟩ rest
        ((castToBool vch != negated) :: vfExec)) = _
      exact continueWith_at

theorem exec_lotto
    (operand : Token) (short : (operand.bytes ++ rest).length < 2 ^ 32)
    (all : false ∉ vfExec) :
    (evalMachine args).exec (data.at (OP_LOTTO :: (operand.bytes ++ rest)) vfExec) =
      (data.control OP_LOTTO).bind fun data =>
        (evalMachine args).exec (data.at rest vfExec) := by
  refine exec_control (by decide) fun data => ?_
  rw [dispatch_execute (fExec_of_all all) (show OP_PUSHDATA4 < OP_LOTTO by decide),
    show operation OP_LOTTO = .lotto from rfl, execute]
  change (getOp2 (operand.bytes ++ rest)).map _ = _
  rw [operand.parsed rest short]
  rfl

theorem exec_lotto_skip (skipped : false ∈ vfExec) :
    (evalMachine args).exec (data.at (OP_LOTTO :: rest) vfExec) =
      (data.control OP_LOTTO).bind fun data =>
        (evalMachine args).exec (data.at rest vfExec) :=
  exec_control (by decide) fun _ => dispatch_skip skipped
    (show ¬ (OP_IF ≤ OP_LOTTO ∧ OP_LOTTO ≤ OP_ENDIF) by decide)

/-! ## Programs -/

mutual

theorem Code.length_onto (code : Code) (suffix : CScript) :
    suffix.length ≤ (code.onto suffix).length := by
  cases code with
  | nil => exact le_refl _
  | plain token code =>
      have behind := code.length_onto suffix
      rw [Code.onto, List.length_append]
      omega
  | lotto operand code =>
      have behind := code.length_onto suffix
      rw [Code.onto, List.length_cons, List.length_append]
      omega
  | cond negated branches code =>
      have behind := code.length_onto suffix
      have inside := branches.length_onto (code.onto suffix)
      rw [Code.onto, List.length_cons]
      omega

theorem Branches.length_onto (branches : Branches) (suffix : CScript) :
    suffix.length ≤ (branches.onto suffix).length := by
  cases branches with
  | last code =>
      have behind := code.length_onto (OP_ENDIF :: suffix)
      rw [List.length_cons] at behind
      rw [Branches.onto]
      omega
  | more code others =>
      have behind := others.length_onto suffix
      have inside := code.length_onto (OP_ELSE :: others.onto suffix)
      rw [List.length_cons] at inside
      rw [Branches.onto]
      omega

end

mutual

/-- A program in a branch that is not taken is passed over. -/
theorem Code.exec_skip
    (code : Code) (suffix : CScript) (short : (code.onto suffix).length < 2 ^ 32)
    (data : Data) (vfExec : List Bool) (skipped : false ∈ vfExec) :
    (evalMachine args).exec (data.at (code.onto suffix) vfExec) =
      (code.skip data).bind fun data =>
        (evalMachine args).exec (data.at suffix vfExec) := by
  cases code with
  | nil => rfl
  | plain token code =>
      rw [Code.onto] at short ⊢
      rw [exec_token_skip token short skipped, Code.skip, Option.bind_assoc]
      rw [List.length_append] at short
      congr 1
      funext data
      exact code.exec_skip suffix (by omega) data vfExec skipped
  | lotto operand code =>
      rw [Code.onto] at short ⊢
      rw [List.length_cons] at short
      rw [exec_lotto_skip skipped, Code.skip, Option.bind_assoc]
      congr 1
      funext data
      rw [exec_token_skip operand (by omega) skipped, Option.bind_assoc]
      rw [List.length_append] at short
      congr 1
      funext data
      exact code.exec_skip suffix (by omega) data vfExec skipped
  | cond negated branches code =>
      have behind := branches.length_onto (code.onto suffix)
      rw [Code.onto] at short ⊢
      rw [List.length_cons] at short
      rw [exec_if_skip negated skipped, Code.skip, Option.bind_assoc]
      congr 1
      funext data
      rw [branches.exec_skip (code.onto suffix) (by omega) data false vfExec skipped,
        Option.bind_assoc]
      congr 1
      funext data
      exact code.exec_skip suffix (by omega) data vfExec skipped

theorem Branches.exec_skip
    (branches : Branches) (suffix : CScript)
    (short : (branches.onto suffix).length < 2 ^ 32) (data : Data) (flag : Bool)
    (vfExec : List Bool) (skipped : false ∈ vfExec) :
    (evalMachine args).exec (data.at (branches.onto suffix) (flag :: vfExec)) =
      (branches.skip data).bind fun data =>
        (evalMachine args).exec (data.at suffix vfExec) := by
  cases branches with
  | last code =>
      rw [Branches.onto] at short ⊢
      rw [code.exec_skip (OP_ENDIF :: suffix) short data (flag :: vfExec)
        (List.mem_cons_of_mem _ skipped), Branches.skip, Option.bind_assoc]
      congr 1
      funext data
      exact exec_endIf
  | more code others =>
      have inside := code.length_onto (OP_ELSE :: others.onto suffix)
      rw [List.length_cons] at inside
      rw [Branches.onto] at short ⊢
      rw [code.exec_skip (OP_ELSE :: others.onto suffix) short data (flag :: vfExec)
        (List.mem_cons_of_mem _ skipped), Branches.skip, Option.bind_assoc]
      congr 1
      funext data
      rw [exec_else, Option.bind_assoc]
      congr 1
      funext data
      exact others.exec_skip suffix (by omega) data (!flag) vfExec skipped

end

mutual

/-- A program is evaluated as it means. -/
theorem Code.exec_eval
    (code : Code) (suffix : CScript) (short : (code.onto suffix).length < 2 ^ 32)
    (data : Data) (vfExec : List Bool) (all : false ∉ vfExec) :
    (evalMachine args).exec (data.at (code.onto suffix) vfExec) =
      (code.eval args suffix data).bind fun data =>
        (evalMachine args).exec (data.at suffix vfExec) := by
  cases code with
  | nil => rfl
  | plain token code =>
      rw [Code.onto] at short ⊢
      rw [exec_token token short all, Code.eval, Option.bind_assoc]
      rw [List.length_append] at short
      congr 1
      funext data
      exact code.exec_eval suffix (by omega) data vfExec all
  | lotto operand code =>
      rw [Code.onto] at short ⊢
      rw [List.length_cons] at short
      rw [exec_lotto operand (by omega) all, Code.eval, Option.bind_assoc]
      rw [List.length_append] at short
      congr 1
      funext data
      exact code.exec_eval suffix (by omega) data vfExec all
  | cond negated branches code =>
      have behind := branches.length_onto (code.onto suffix)
      rw [Code.onto] at short ⊢
      rw [List.length_cons] at short
      rw [exec_if negated all, Code.eval, Option.bind_assoc]
      congr 1
      funext data
      cases data.stack with
      | nil => rfl
      | cons vch stack =>
          dsimp only
          rw [Option.bind_assoc]
          congr 1
          funext data
          rw [branches.exec_eval (code.onto suffix) (by omega) data _ vfExec all,
            Option.bind_assoc]
          congr 1
          funext data
          exact code.exec_eval suffix (by omega) data vfExec all

theorem Branches.exec_eval
    (branches : Branches) (suffix : CScript)
    (short : (branches.onto suffix).length < 2 ^ 32) (data : Data) (taken : Bool)
    (vfExec : List Bool) (all : false ∉ vfExec) :
    (evalMachine args).exec (data.at (branches.onto suffix) (taken :: vfExec)) =
      (branches.eval args taken suffix data).bind fun data =>
        (evalMachine args).exec (data.at suffix vfExec) := by
  cases branches with
  | last code =>
      have branch : (evalMachine args).exec
            (data.at (code.onto (OP_ENDIF :: suffix)) (taken :: vfExec)) =
          (if taken then code.eval args (OP_ENDIF :: suffix) data
            else code.skip data).bind fun data =>
              (evalMachine args).exec (data.at (OP_ENDIF :: suffix) (taken :: vfExec)) := by
        rw [Branches.onto] at short
        cases taken with
        | true =>
            exact code.exec_eval _ short data _ fun listed =>
              all ((List.mem_cons.mp listed).resolve_left Bool.false_ne_true)
        | false => exact code.exec_skip _ short data _ List.mem_cons_self
      rw [Branches.onto, branch, Branches.eval, Option.bind_assoc]
      congr 1
      funext data
      exact exec_endIf
  | more code others =>
      have inside := code.length_onto (OP_ELSE :: others.onto suffix)
      rw [List.length_cons] at inside
      rw [Branches.onto] at short
      have branch : (evalMachine args).exec
            (data.at (code.onto (OP_ELSE :: others.onto suffix)) (taken :: vfExec)) =
          (if taken then code.eval args (OP_ELSE :: others.onto suffix) data
            else code.skip data).bind fun data =>
              (evalMachine args).exec
                (data.at (OP_ELSE :: others.onto suffix) (taken :: vfExec)) := by
        cases taken with
        | true =>
            exact code.exec_eval _ short data _ fun listed =>
              all ((List.mem_cons.mp listed).resolve_left Bool.false_ne_true)
        | false => exact code.exec_skip _ short data _ List.mem_cons_self
      rw [Branches.onto, branch, Branches.eval, Option.bind_assoc]
      congr 1
      funext data
      rw [exec_else, Option.bind_assoc]
      congr 1
      funext data
      exact others.exec_eval suffix (by omega) data (!taken) vfExec all

end

/-- The data in front of a script. -/
def Data.start (stack : List Valtype) (script : CScript) : Data where
  pbegincodehash := script
  stack := stack
  altstack := []
  nOpCount := 0

theorem evalScript_onto (stack : List Valtype) (code : Code) :
    evalScript args stack (code.onto []) =
      if 10000 < (code.onto []).length then none
      else (code.eval args [] (Data.start stack (code.onto []))).map Data.stack := by
  split_ifs with long
  · exact if_pos long
  · have short : (code.onto []).length < 2 ^ 32 :=
      Nat.lt_of_le_of_lt (Nat.le_of_not_lt long) (by decide)
    have evaluated := @Code.exec_eval args code [] short
      (Data.start stack (code.onto [])) [] List.not_mem_nil
    rw [evalScript_of_le (Nat.le_of_not_lt long)]
    change ((evalMachine args).exec ((Data.start stack _).at _ [])).bind finish = _
    rw [evaluated]
    cases code.eval args [] (Data.start stack (code.onto [])) with
    | none => rfl
    | some data =>
        rw [Option.bind_some, show (evalMachine args).exec (data.at [] []) =
          some (data.at [] []) from exec_nil]
        rfl

/--
Evaluating the bytes of a program gives what the program means, from every stack
and with every nesting of its conditions.
-/
theorem evalScript_program
    (args : EvalArgs) (stack : List Valtype) (code : Code) :
    evalScript args stack (code.onto []) =
      if 10000 < (code.onto []).length then none
      else (code.eval args [] (Data.start stack (code.onto []))).map Data.stack :=
  evalScript_onto stack code

/-! ## Scripts that are programs -/

variable {flag : Bool} {state next : EvalState} {script : CScript}
  {stack left : List Valtype}

theorem readPushSize_field
    {nSize : Nat} {operand : CScript}
    (read : readPushSize opcode pc = some (nSize, operand)) :
    ∃ field, pc = field ++ operand ∧
      ∀ rest, readPushSize opcode (field ++ rest) = some (nSize, rest) := by
  have sized (width : Nat) (fieldRead : readSizeField width pc = some (nSize, operand)) :
      ∃ field, pc = field ++ operand ∧
        ∀ rest, readSizeField width (field ++ rest) = some (nSize, rest) := by
    rw [readSizeField] at fieldRead
    split_ifs at fieldRead with short
    cases fieldRead
    have taken : (pc.take width).length = width :=
      List.length_take_of_le (Nat.le_of_not_lt short)
    refine ⟨pc.take width, (List.take_append_drop _ _).symm, fun rest => ?_⟩
    rw [readSizeField, if_neg (by rw [List.length_append, taken]; omega),
      List.take_left' taken, List.drop_left' taken]
  rw [readPushSize] at read
  simp only [readPushSize]
  split_ifs at read ⊢
  · cases read
    exact ⟨[], rfl, fun rest => rfl⟩
  · exact sized 1 read
  · exact sized 2 read
  · exact sized 4 read

/-- What an operation is depends on its own bytes only. -/
theorem getOp2_prefix (parsed : getOp2 pc = some op) :
    ∃ bytes, pc = bytes ++ op.pc ∧
      ∀ rest, (bytes ++ rest).length < 2 ^ 32 →
        getOp2 (bytes ++ rest) = some ⟨op.opcode, op.vchRet, rest⟩ := by
  cases pc with
  | nil => cases parsed
  | cons opcode pc =>
      rw [getOp2] at parsed
      split_ifs at parsed with isPush
      · cases read : readPushSize opcode pc with
        | none =>
            rw [read] at parsed
            cases parsed
        | some sized =>
            rcases sized with ⟨nSize, operand⟩
            rw [read] at parsed
            dsimp only at parsed
            split_ifs at parsed with truncated
            cases parsed
            have there := Nat.mod_le operand.length (2 ^ 32)
            have size : (operand.take nSize).length = nSize :=
              List.length_take_of_le (by omega)
            rcases readPushSize_field read with ⟨field, rfl, reads⟩
            refine ⟨opcode :: (field ++ operand.take nSize), ?_, fun rest short => ?_⟩
            · rw [List.cons_append, List.append_assoc, List.take_append_drop]
            · rw [List.cons_append, List.append_assoc] at short ⊢
              refine PushCodec.getOp2_of_size isPush ?_ ?_
              · rw [reads, size]
              · simp only [List.length_cons, List.length_append] at short ⊢
                omega
      · cases parsed
        refine ⟨[opcode], rfl, fun rest _ => ?_⟩
        rw [List.singleton_append, getOp2, if_neg isPush]

/-- The opcodes around those of conditions do nothing in a script. -/
theorem control_of_inside (inside : OP_IF ≤ opcode ∧ opcode ≤ OP_ENDIF) :
    isControl (operation opcode) = true ∨ operation opcode = .invalid := by
  have number : opcode = 0x63 ∨ opcode = 0x64 ∨ opcode = 0x65 ∨ opcode = 0x66 ∨
      opcode = 0x67 ∨ opcode = 0x68 := by
    rw [UInt8.le_iff_toNat_le, UInt8.le_iff_toNat_le, show OP_IF.toNat = 99 from rfl,
      show OP_ENDIF.toNat = 104 from rfl] at inside
    simp only [← UInt8.toNat_inj]
    change _ = 99 ∨ _ = 100 ∨ _ = 101 ∨ _ = 102 ∨ _ = 103 ∨ _ = 104
    omega
  rcases number with rfl | rfl | rfl | rfl | rfl | rfl <;> decide

/-- The rest of a script behind some flags. -/
inductive Inside : List Bool → CScript → Prop where
  | outside (code : Code) : Inside [] (code.onto [])
  | within {vfExec : List Bool} {rest : CScript} (flag : Bool) (branches : Branches)
      (outer : Inside vfExec rest) : Inside (flag :: vfExec) (branches.onto rest)

/-- Something in front of the code that goes on. -/
theorem Inside.prepend
    {bytes : CScript} (inside : Inside vfExec rest) (extend : Code → Code)
    (onto : ∀ code suffix, (extend code).onto suffix = bytes ++ code.onto suffix) :
    Inside vfExec (bytes ++ rest) := by
  cases inside with
  | outside code =>
      rw [← onto]
      exact Inside.outside _
  | within flag branches outer =>
      cases branches with
      | last code =>
          rw [Branches.onto, ← onto, ← Branches.onto]
          exact Inside.within flag _ outer
      | more code others =>
          rw [Branches.onto, ← onto, ← Branches.onto]
          exact Inside.within flag _ outer

theorem Inside.opIf (inside : Inside (flag :: vfExec) rest) (negated : Bool) :
    Inside vfExec (ifOpcode negated :: rest) := by
  cases inside with
  | within _ branches outer =>
      cases outer with
      | outside code => exact Inside.outside (.cond negated branches code)
      | within outerFlag outerBranches outer =>
          cases outerBranches with
          | last code =>
              exact Inside.within outerFlag (.last (.cond negated branches code)) outer
          | more code others =>
              exact Inside.within outerFlag (.more (.cond negated branches code) others)
                outer

theorem Inside.opElse (inside : Inside (flag :: vfExec) rest) (before : Bool) :
    Inside (before :: vfExec) (OP_ELSE :: rest) := by
  cases inside with
  | within _ branches outer => exact Inside.within before (.more .nil branches) outer

theorem Inside.opEndIf (inside : Inside vfExec rest) (before : Bool) :
    Inside (before :: vfExec) (OP_ENDIF :: rest) :=
  Inside.within before (.last .nil) inside

theorem operations_opens :
    ∀ entry ∈ operations, ∀ negated ∈ [true, false],
      entry.2 = .opIf negated → entry.1 = ifOpcode negated := by
  decide

theorem operations_else :
    ∀ entry ∈ operations, entry.2 = .opElse → entry.1 = OP_ELSE := by
  decide

theorem operations_endIf :
    ∀ entry ∈ operations, entry.2 = .opEndIf → entry.1 = OP_ENDIF := by
  decide

/-- A plain operation in front. -/
theorem Inside.plain
    (inside : Inside vfExec op.pc) (parsed : getOp2 pc = some op)
    (plain : ¬ (OP_IF ≤ op.opcode ∧ op.opcode ≤ OP_ENDIF))
    (own : op.opcode ≠ OP_LOTTO) : Inside vfExec pc := by
  rcases getOp2_prefix parsed with ⟨bytes, whole, reads⟩
  rw [whole]
  exact inside.prepend (.plain ⟨bytes, op.opcode, op.vchRet, reads, plain, own⟩)
    fun _ _ => rfl

/-- What is executed besides conditions keeps the flags. -/
theorem execute_vfExec
    {operation : Operation} (plain : isControl operation = false)
    (own : operation ≠ .lotto)
    (executed : execute args operation state = some next) :
    next.vfExec = state.vfExec := by
  have kept := @execute_at args state.pc (Data.of state) state.vfExec _ plain own
  change execute args operation state = _ at kept
  rw [executed] at kept
  rcases Option.map_eq_some_iff.mp kept.symm with ⟨other, -, rfl⟩
  rfl

/-- In front of a round stands a program when one stands behind it. -/
theorem inside_of_step
    (taken : step args state = some next) (inside : Inside next.vfExec next.pc)
    (own : OP_LOTTO ∉ SigOps.opcodes state.pc) : Inside state.vfExec state.pc := by
  rcases step_eq_some.mp taken with ⟨op, fetched, read, executed, -⟩
  rcases fetch_eq_some.mp read with ⟨parsed, -, -, -, same⟩
  have flags : fetched.vfExec = state.vfExec := by rw [same]
  have behind : fetched.pc = op.pc := by rw [same]
  have notLotto : op.opcode ≠ OP_LOTTO := by
    rw [SigOps.opcodes_op (StandardOutputs.scan_of_getOp2 parsed)] at own
    exact fun isLotto => own (isLotto ▸ List.mem_cons_self)
  have notOperation : operation op.opcode ≠ .lotto := fun isLotto =>
    notLotto (SigOps.opcode_of_lotto isLotto)
  rw [dispatch] at executed
  split_ifs at executed with isPush isExecuted
  · cases executed
    change Inside fetched.vfExec fetched.pc at inside
    rw [flags, behind] at inside
    refine inside.plain parsed ?_ notLotto
    exact fun control => absurd (UInt8.le_trans control.1 isPush.2) (by decide)
  · by_cases control : isControl (operation op.opcode) = true
    · have listed : (op.opcode, operation op.opcode) ∈ operations := by
        refine mem_operations ?_ ?_
        · intro stackOp isOp
          rw [isOp] at control
          cases control
        · intro invalid
          rw [invalid] at control
          cases control
      have above : OP_PUSHDATA4 < op.opcode :=
        UInt8.lt_of_lt_of_le (by decide) (operations_control _ listed control).1
      have whole := (eq_cons_of_opcode parsed above).1
      rw [whole]
      cases isOp : operation op.opcode with
      | opIf negated =>
          rw [isOp] at listed executed
          have opens := operations_opens _ listed negated (by cases negated <;> decide) rfl
          have opened : ∃ flag, next.vfExec = flag :: state.vfExec ∧
              next.pc = op.pc := by
            rw [execute, executeIf] at executed
            split_ifs at executed
            · split at executed <;> cases executed
              exact ⟨_, congrArg _ flags, behind⟩
            · cases executed
              exact ⟨_, congrArg _ flags, behind⟩
          rcases opened with ⟨flag, pushed, there⟩
          rw [pushed, there] at inside
          rw [show op.opcode = ifOpcode negated from opens]
          exact inside.opIf negated
      | opElse =>
          rw [isOp] at listed executed
          rw [execute, flags] at executed
          rw [show op.opcode = OP_ELSE from operations_else _ listed rfl]
          cases held : state.vfExec with
          | nil =>
              rw [held] at executed
              cases executed
          | cons before vfExec =>
              rw [held] at executed
              cases executed
              change Inside ((!before) :: vfExec) fetched.pc at inside
              rw [behind] at inside
              exact inside.opElse before
      | opEndIf =>
          rw [isOp] at listed executed
          rw [execute, flags] at executed
          rw [show op.opcode = OP_ENDIF from operations_endIf _ listed rfl]
          cases held : state.vfExec with
          | nil =>
              rw [held] at executed
              cases executed
          | cons before vfExec =>
              rw [held] at executed
              cases executed
              change Inside vfExec fetched.pc at inside
              rw [behind] at inside
              exact inside.opEndIf before
      | _ =>
          rw [isOp] at control
          cases control
    · rw [Bool.not_eq_true] at control
      rw [execute_vfExec control notOperation executed, flags,
        execute_pc_eq executed notOperation, behind] at inside
      refine inside.plain parsed (fun within => ?_) notLotto
      rcases control_of_inside within with isControl | invalid
      · rw [control] at isControl
        cases isControl
      · rw [invalid] at executed
        cases executed
  · cases executed
    rw [flags, behind] at inside
    exact inside.plain parsed (fun within => isExecuted (Or.inr within)) notLotto

theorem opcodes_step
    (taken : step args state = some next) (own : OP_LOTTO ∉ SigOps.opcodes state.pc) :
    OP_LOTTO ∉ SigOps.opcodes next.pc := by
  rcases step_eq_some.mp taken with ⟨op, fetched, read, executed, -⟩
  rcases fetch_eq_some.mp read with ⟨parsed, -, -, -, same⟩
  rw [SigOps.opcodes_op (StandardOutputs.scan_of_getOp2 parsed)] at own
  rcases SigOps.dispatch_pc_cases executed with there | ⟨isLotto, -⟩
  · rw [there, same]
    exact fun listed => own (List.mem_cons_of_mem _ listed)
  · exact absurd (isLotto ▸ List.mem_cons_self) own

theorem inside_of_reaches
    (reaches : (evalMachine args).Reaches state next)
    (inside : Inside next.vfExec next.pc) (own : OP_LOTTO ∉ SigOps.opcodes state.pc) :
    Inside state.vfExec state.pc := by
  induction reaches with
  | refl => exact inside
  | head taken _ inductionHypothesis =>
      exact inside_of_step taken
        (inductionHypothesis inside (opcodes_step taken own)) own

/--
A script without `OP_LOTTO` that succeeds has its conditions nested, so what it
means as a program is what it was evaluated to.
-/
theorem exists_program
    (args : EvalArgs) (stack left : List Valtype) (script : CScript)
    (own : OP_LOTTO ∉ SigOps.opcodes script)
    (evaluated : evalScript args stack script = some left) :
    ∃ code : Code, script = code.onto [] ∧
      (code.eval args [] (Data.start stack script)).map Data.stack = some left := by
  rcases evalScript_eq_some.mp evaluated with ⟨short, last, reaches, done, closed, -⟩
  have inside : Inside [] script :=
    inside_of_reaches reaches (by rw [done, closed]; exact Inside.outside .nil) own
  cases inside with
  | outside code =>
      rw [evalScript_onto, if_neg (Nat.not_lt_of_le short)] at evaluated
      exact ⟨code, rfl, evaluated⟩

/-- The first branch of two is taken. -/
theorem exists_program_else :
    ∃ code : Code, [OP_1, OP_IF, 0x52, OP_ELSE, 0x53, OP_ENDIF] = code.onto [] ∧
      (code.eval (StandardOutputs.sampleArgs 0) []
        (Data.start [] [OP_1, OP_IF, 0x52, OP_ELSE, 0x53, OP_ENDIF])).map Data.stack =
          some [[0x02]] :=
  exists_program (StandardOutputs.sampleArgs 0) [] [[0x02]]
    [OP_1, OP_IF, 0x52, OP_ELSE, 0x53, OP_ENDIF] (by decide) (by decide)

end DSValue.Script.Blocks
