import DSValue.Script.Interpreter

/-!
# Executing known operations

What the loop of `EvalScript` does with an operation that is known: a push, an
operation on the stack, a signature check.  The state goes on behind the
operation or the script fails.
-/

namespace DSValue.Script.Execution

open DSValue.Lib
open DSValue.Script.Scan hiding getOp2 getOp2_length
open DSValue.Script.PushCodec (getOp2 getOp2_length push)
open DSValue.Script.Number
open DSValue.Script.Interpreter

variable {args : EvalArgs} {op : ParsedOp} {state next : EvalState}
  {opcode : UInt8} {rest : CScript} {vch : Valtype}
  {stack altstack : List Valtype} {code : CScript} {nOpCount : Nat}

/-- An opcode behind the pushes is one byte. -/
theorem getOp2_opcode (behind : OP_PUSHDATA4 < opcode) :
    getOp2 (opcode :: rest) = some ⟨opcode, [], rest⟩ := by
  rw [getOp2, if_neg (UInt8.not_le.mpr behind)]

/-- An operation with an empty operand behind the pushes is one byte. -/
theorem eq_cons_of_opcode
    {script : CScript} (parsed : getOp2 script = some op)
    (behind : OP_PUSHDATA4 < op.opcode) :
    script = op.opcode :: op.pc ∧ op.vchRet = [] := by
  cases script with
  | nil => cases parsed
  | cons first pc =>
      rw [getOp2] at parsed
      split_ifs at parsed with isPush
      · split at parsed
        · cases parsed
        · split_ifs at parsed
          cases parsed
          exact absurd isPush (UInt8.not_le.mpr behind)
      · cases parsed
        exact ⟨rfl, rfl⟩

/-- Only a push has an operand. -/
theorem isPush_of_operand
    {script : CScript} (parsed : getOp2 script = some op)
    (operand : op.vchRet ≠ []) : op.opcode ≤ OP_PUSHDATA4 := by
  rw [← UInt8.not_lt]
  exact fun behind => operand (eq_cons_of_opcode parsed behind).2

/-- A round with an operation that passes the checks in front. -/
theorem exec_of_op
    (parsed : getOp2 state.pc = some op) (short : op.vchRet.length ≤ 520)
    (few : tooManyOps op.opcode state.nOpCount = false)
    (allowed : op.opcode ∉ disabledOpcodes) :
    (evalMachine args).exec state =
      (dispatch args op { state with
          pc := op.pc
          nOpCount := countOp op.opcode state.nOpCount }).bind fun next =>
        if withinLimits next then (evalMachine args).exec next else none := by
  have more : (evalMachine args).done state = false := by
    change state.pc.isEmpty = false
    cases code : state.pc with
    | nil =>
        rw [code] at parsed
        cases parsed
    | cons first others => rfl
  have read := fetch_eq_some.mpr ⟨parsed, short, few, allowed, rfl⟩
  rw [Machine.exec_of_not_done more]
  change (step args state).bind _ = _
  rw [step, read, Option.bind_eq_bind, Option.bind_some]
  dsimp only
  cases dispatch args op { state with
      pc := op.pc
      nOpCount := countOp op.opcode state.nOpCount } with
  | none => rfl
  | some next =>
      rw [Option.bind_eq_bind, Option.bind_some, Option.bind_some]
      split_ifs <;> rfl

set_option maxRecDepth 4000 in
/-- What is disabled counts. -/
theorem counted_of_disabled : ∀ opcode ∈ disabledOpcodes, OP_16 < opcode := by
  decide

theorem allowed_of_not_counted (low : opcode ≤ OP_16) :
    opcode ∉ disabledOpcodes :=
  fun disabled => absurd low (UInt8.not_le.mpr (counted_of_disabled _ disabled))

theorem not_counted (low : opcode ≤ OP_16) (nOpCount : Nat) :
    tooManyOps opcode nOpCount = false ∧ countOp opcode nOpCount = nOpCount :=
  ⟨decide_eq_false fun both => UInt8.not_lt.mpr low both.1,
    if_neg (UInt8.not_lt.mpr low)⟩

theorem counted (behind : OP_16 < opcode) (few : nOpCount < 201) :
    tooManyOps opcode nOpCount = false ∧
      countOp opcode nOpCount = nOpCount + 1 :=
  ⟨decide_eq_false fun both => by omega, if_pos behind⟩

theorem dispatch_push
    (executing : state.fExec = true) (isPush : op.opcode ≤ OP_PUSHDATA4) :
    dispatch args op state =
      some { state with stack := op.vchRet :: state.stack } := by
  rw [dispatch, if_pos ⟨executing, isPush⟩]

theorem dispatch_execute
    (executing : state.fExec = true) (behind : OP_PUSHDATA4 < op.opcode) :
    dispatch args op state = execute args (operation op.opcode) state := by
  rw [dispatch, if_neg fun both => UInt8.not_le.mpr behind both.2,
    if_pos (Or.inl executing)]

/-- The state goes on when the stack is not too large. -/
def continueWith (args : EvalArgs) (next : EvalState) : Option EvalState :=
  if withinLimits next then (evalMachine args).exec next else none

theorem continueWith_of_le
    (fits : state.stack.length + state.altstack.length ≤ 1000) :
    continueWith args state = (evalMachine args).exec state :=
  if_pos (decide_eq_true fits)

theorem continueWith_eq_some :
    continueWith args state = some next ↔
      state.stack.length + state.altstack.length ≤ 1000 ∧
        (evalMachine args).exec state = some next := by
  rw [continueWith, withinLimits]
  split_ifs with fits
  · rw [and_iff_right (of_decide_eq_true fits)]
  · exact iff_of_false (fun equal => by cases equal)
      fun both => fits (decide_eq_true both.1)

/-- A push outside of conditions. -/
theorem exec_push
    {pc : CScript} (parsed : getOp2 pc = some op)
    (isPush : op.opcode ≤ OP_PUSHDATA4) (short : op.vchRet.length ≤ 520) :
    (evalMachine args).exec ⟨pc, code, stack, altstack, [], nOpCount⟩ =
      continueWith args
        ⟨op.pc, code, op.vchRet :: stack, altstack, [], nOpCount⟩ := by
  have low : op.opcode ≤ OP_16 := UInt8.le_trans isPush (by decide)
  rcases not_counted low nOpCount with ⟨few, same⟩
  refine (exec_of_op parsed short few (allowed_of_not_counted low)).trans ?_
  rw [dispatch_push rfl isPush, Option.bind_some]
  dsimp only
  rw [same]
  rfl

/-- A small number outside of conditions. -/
theorem exec_number
    {n : Int} (isOp : operation opcode = .onStack (.number n))
    (behind : OP_PUSHDATA4 < opcode) (low : opcode ≤ OP_16) :
    (evalMachine args).exec
        ⟨opcode :: rest, code, stack, altstack, [], nOpCount⟩ =
      continueWith args ⟨rest, code, getvch n :: stack, altstack, [], nOpCount⟩ := by
  rcases not_counted low nOpCount with ⟨few, same⟩
  refine (exec_of_op (getOp2_opcode behind) (Nat.zero_le _) few
    (allowed_of_not_counted low)).trans ?_
  rw [dispatch_execute rfl behind]
  dsimp only
  rw [isOp, same]
  rfl

/-- An operation that counts, outside of conditions. -/
theorem exec_operation
    (behind : OP_16 < opcode) (few : nOpCount < 201)
    (allowed : opcode ∉ disabledOpcodes) :
    (evalMachine args).exec
        ⟨opcode :: rest, code, stack, altstack, [], nOpCount⟩ =
      (execute args (operation opcode)
        ⟨rest, code, stack, altstack, [], nOpCount + 1⟩).bind
          (continueWith args) := by
  have above : OP_PUSHDATA4 < opcode := UInt8.lt_trans (by decide) behind
  rcases counted behind few with ⟨within, count⟩
  refine (exec_of_op (getOp2_opcode above) (Nat.zero_le _) within allowed).trans ?_
  rw [dispatch_execute rfl above]
  dsimp only
  rw [count]
  rfl

/-- An operation on the stack, outside of conditions. -/
theorem exec_onStack
    {stackOp : StackOp} (isOp : operation opcode = .onStack stackOp)
    (behind : OP_16 < opcode) (few : nOpCount < 201)
    (allowed : opcode ∉ disabledOpcodes) :
    (evalMachine args).exec
        ⟨opcode :: rest, code, stack, altstack, [], nOpCount⟩ =
      (stackOp.apply args.crypto.hashes stack).bind fun stack =>
        continueWith args ⟨rest, code, stack, altstack, [], nOpCount + 1⟩ := by
  rw [exec_operation behind few allowed, isOp, execute]
  cases stackOp.apply args.crypto.hashes stack <;> rfl

/-- A signature check outside of conditions. -/
theorem exec_checkSig (few : nOpCount < 201) :
    (evalMachine args).exec
        ⟨OP_CHECKSIG :: rest, code, stack, altstack, [], nOpCount⟩ =
      match stack with
      | vchPubKey :: vchSig :: stack =>
          continueWith args
            ⟨rest, code,
              boolVch (args.check (dropSignatures code [vchSig]) vchSig vchPubKey)
                :: stack,
              altstack, [], nOpCount + 1⟩
      | _ => none := by
  rw [exec_operation (by decide) few (by decide),
    show operation OP_CHECKSIG = .checkSig false from rfl, execute]
  cases stack with
  | nil => rfl
  | cons vchPubKey stack => cases stack <;> rfl

/-- The end of a script. -/
theorem exec_nil :
    (evalMachine args).exec ⟨[], code, stack, altstack, [], nOpCount⟩ =
      some ⟨[], code, stack, altstack, [], nOpCount⟩ :=
  Machine.exec_of_done rfl

/-! ## Small numbers -/

/-- A small number is read back from the stack. -/
theorem castToBigNum_getvch {k : Nat} (small : k ≤ 16) :
    castToBigNum (getvch k) = some (k : Int) := by
  rw [castToBigNum_eq_some]
  refine ⟨le_trans (SignMagnitude.length_encode_le Nat.one_pos ?_) (by decide),
    SignMagnitude.decode_encode _⟩
  rw [Int.natAbs_natCast]
  exact Nat.lt_of_le_of_lt small (by decide)

theorem getint_natCast {k : Nat} (small : k ≤ 16) : getint k = k := by
  rw [getint]
  split_ifs <;> omega

/-- The number that a small opcode pushes. -/
theorem operation_smallInteger {n : UInt8} (positive : 1 ≤ n) (few : n ≤ 16) :
    operation (n + (OP_1 - 1)) = .onStack (.number n.toNat) ∧
      OP_PUSHDATA4 < n + (OP_1 - 1) ∧ n + (OP_1 - 1) ≤ OP_16 := by
  rw [UInt8.le_iff_toNat_le] at positive few
  have one : (1 : UInt8).toNat = 1 := rfl
  have sixteen : (16 : UInt8).toNat = 16 := rfl
  have number : (n + (OP_1 - 1)).toNat = n.toNat + 80 := by
    rw [UInt8.toNat_add, show (OP_1 - 1).toNat = 80 from rfl,
      Nat.mod_eq_of_lt (by omega)]
  have low : OP_1 ≤ n + (OP_1 - 1) := by
    rw [UInt8.le_iff_toNat_le, number, show OP_1.toNat = 81 from rfl]
    omega
  have high : n + (OP_1 - 1) ≤ OP_16 := by
    rw [UInt8.le_iff_toNat_le, number, show OP_16.toNat = 96 from rfl]
    omega
  refine ⟨?_, UInt8.lt_of_lt_of_le (by decide) low, high⟩
  rw [operation, if_pos (Or.inr ⟨low, high⟩), number,
    show OP_1.toNat = 81 from rfl]
  congr 2
  omega

end DSValue.Script.Execution
