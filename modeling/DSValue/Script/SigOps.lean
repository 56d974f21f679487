import Mathlib.Tactic.IntervalCases
import DSValue.Script.Bounds
import DSValue.Script.StandardOutputs

/-!
# The limit on signature operations

`GetSigOpCount` reads a script without executing it.  It counts every signature
check of `OP_CHECKSIG` and up to twenty for `OP_CHECKMULTISIG`, or as many as
there are keys when a small number stands in front.  Evaluating the script does
not check more signatures than that, in no branch and with no stack.  The
accurate count relies on what stands in front being executed: `OP_LOTTO` takes
the next operation for its operand, so a script with this opcode has only the
count that takes twenty.
-/

namespace DSValue.Script.SigOps

open DSValue.Lib
open DSValue.Script.Scan hiding getOp2 getOp2_length
open DSValue.Script.PushCodec (getOp2 getOp2_length)
open DSValue.Script.Number
open DSValue.Script.Interpreter
open DSValue.Script.Execution
open DSValue.Script.StandardOutputs (generator sampleArgs scan_of_getOp2)
open DSValue.Script.Bounds (operation_cases)

variable {args : EvalArgs} {state next fetched : EvalState} {op : ParsedOp}
  {stack : List Valtype} {script : CScript} {opcode lastOpcode : UInt8}
  {check : Valtype → Valtype → Bool} {sigs keys : List Valtype}
  {fAccurate : Bool} {bound : Nat}

/-! ## Counting the checks -/

/-- The checks that `multiSigLoop` makes. -/
def multiSigChecks (check : Valtype → Valtype → Bool) :
    (sigs keys : List Valtype) → Nat
  | [], _ => 0
  | _ :: _, [] => 0
  | vchSig :: sigs, vchPubKey :: keys =>
      let left := if check vchSig vchPubKey then sigs else vchSig :: sigs
      if keys.length < left.length then 1
      else 1 + multiSigChecks check left keys

/-- The checks of `OP_CHECKMULTISIG`. -/
def checkMultiSigChecks (args : EvalArgs) (state : EvalState) : Nat :=
  match state.stack with
  | [] => 0
  | count :: stack =>
      match castToBigNum count with
      | none => 0
      | some bn =>
          if getint bn < 0 ∨ 20 < getint bn then 0
          else if 201 < state.nOpCount + (getint bn).toNat then 0
          else
            match readMultiSig (getint bn).toNat stack with
            | none => 0
            | some operands =>
                multiSigChecks
                  (args.check (dropSignatures state.pbegincodehash operands.sigs))
                  operands.sigs operands.keys

/-- The checks of an operation that is executed. -/
def executeChecks (args : EvalArgs) : Operation → EvalState → Nat
  | .checkSig _, state => if 2 ≤ state.stack.length then 1 else 0
  | .checkMultiSig _, state => checkMultiSigChecks args state
  | _, _ => 0

/-- The signature checks of a round, one that fails included. -/
def signatureChecks (args : EvalArgs) (state : EvalState) : Nat :=
  match fetch state with
  | none => 0
  | some (op, fetched) =>
      if fetched.fExec then executeChecks args (operation op.opcode) fetched else 0

/-- Every check uses up a key. -/
theorem multiSigChecks_le : multiSigChecks check sigs keys ≤ keys.length := by
  induction keys generalizing sigs with
  | nil => cases sigs <;> exact le_refl _
  | cons key keys inductionHypothesis =>
      cases sigs with
      | nil => exact Nat.zero_le _
      | cons sig sigs =>
          rw [multiSigChecks, List.length_cons]
          generalize (if check sig key = true then sigs else sig :: sigs) = left
          have others := @inductionHypothesis left
          split_ifs <;> omega

theorem readMultiSig_keys_le
    {nKeysCount : Nat} {operands : MultiSig}
    (read : readMultiSig nKeysCount stack = some operands) :
    operands.keys.length ≤ nKeysCount := by
  rw [readMultiSig] at read
  split at read
  · cases read
  · rcases Option.bind_eq_some_iff.mp read with ⟨bn, -, read⟩
    dsimp only at read
    split_ifs at read
    cases read
    exact List.length_take_le _ _

/-- No more checks are made than the stack says there are keys. -/
theorem checkMultiSigChecks_le
    (count : ∀ vch, state.stack.head? = some vch → ∀ bn, castToBigNum vch = some bn →
      getint bn ≤ 20 → (getint bn).toNat ≤ bound) :
    checkMultiSigChecks args state ≤ bound := by
  rw [checkMultiSigChecks]
  split
  · exact Nat.zero_le _
  next vch stack held =>
    split
    · exact Nat.zero_le _
    next bn cast =>
      split_ifs with outside
      · exact Nat.zero_le _
      · exact Nat.zero_le _
      · split
        · exact Nat.zero_le _
        next operands read =>
          have few := count vch (by rw [held]; rfl) bn cast (by omega)
          exact multiSigChecks_le.trans ((readMultiSig_keys_le read).trans few)

/-! ## What stands in a script -/

/-- The opcodes that a script is read as. -/
def opcodesLoop : Nat → CScript → List UInt8
  | 0, _ => []
  | bound + 1, script =>
      match Scan.getOp2 script with
      | none => []
      | some op => op.opcode :: opcodesLoop bound op.pc

def opcodes (script : CScript) : List UInt8 := opcodesLoop script.length script

theorem opcodesLoop_bound (enough : script.length ≤ bound) :
    opcodesLoop bound script = opcodes script := by
  induction bound using Nat.strong_induction_on generalizing script with
  | _ bound inductionHypothesis =>
      cases bound with
      | zero =>
          rw [List.length_eq_zero_iff.mp (Nat.le_zero.mp enough)]
          rfl
      | succ bound =>
          cases script with
          | nil => rfl
          | cons byte rest =>
              rw [opcodes, List.length_cons, opcodesLoop, opcodesLoop]
              cases parsed : Scan.getOp2 (byte :: rest) with
              | none => rfl
              | some op =>
                  have shorter := Scan.getOp2_length parsed
                  rw [List.length_cons] at enough shorter
                  dsimp only
                  rw [inductionHypothesis bound (Nat.lt_succ_self bound) (by omega),
                    inductionHypothesis rest.length (by omega) (by omega)]

theorem opcodes_op (parsed : Scan.getOp2 script = some op) :
    opcodes script = op.opcode :: opcodes op.pc := by
  have shorter := Scan.getOp2_length parsed
  rcases Nat.exists_eq_succ_of_ne_zero (Nat.ne_zero_of_lt shorter) with ⟨rest, size⟩
  rw [opcodes, size, opcodesLoop, parsed]
  dsimp only
  rw [opcodesLoop_bound (by omega)]

/-- The count behind an opcode. -/
def sigOpsBehind (fAccurate : Bool) (lastOpcode : UInt8) (script : CScript) : Nat :=
  sigOpLoop fAccurate script.length lastOpcode script

theorem sigOpsBehind_op (parsed : Scan.getOp2 script = some op) :
    sigOpsBehind fAccurate lastOpcode script =
      sigOpsOf fAccurate lastOpcode op.opcode +
        sigOpsBehind fAccurate op.opcode op.pc := by
  have shorter := Scan.getOp2_length parsed
  rcases Nat.exists_eq_succ_of_ne_zero (Nat.ne_zero_of_lt shorter) with ⟨rest, size⟩
  rw [sigOpsBehind, size, sigOpLoop, parsed]
  dsimp only
  rw [sigOpLoop_bound _ _ _ _ (by omega), sigOpsBehind]

/-! ## What an opcode stands for -/

def isCheckSig : Operation → Bool
  | .checkSig _ => true
  | _ => false

def isCheckMultiSig : Operation → Bool
  | .checkMultiSig _ => true
  | _ => false

theorem operations_checkSig :
    ∀ entry ∈ operations, isCheckSig entry.2 = true →
      entry.1 = OP_CHECKSIG ∨ entry.1 = OP_CHECKSIGVERIFY := by
  decide

theorem operations_checkMultiSig :
    ∀ entry ∈ operations, isCheckMultiSig entry.2 = true →
      entry.1 = OP_CHECKMULTISIG ∨ entry.1 = OP_CHECKMULTISIGVERIFY := by
  decide

theorem operations_lotto :
    ∀ entry ∈ operations, entry.2 = .lotto → entry.1 = OP_LOTTO := by
  decide

/-- An operation that is not one of the stack stands in the table. -/
theorem mem_operations
    (other : ∀ stackOp, operation opcode ≠ .onStack stackOp)
    (valid : operation opcode ≠ .invalid) :
    (opcode, operation opcode) ∈ operations := by
  rcases operation_cases opcode with ⟨n, -, isNumber⟩ | isNop | invalid | listed
  · exact absurd isNumber (other _)
  · exact absurd isNop (other _)
  · exact absurd invalid valid
  · exact listed

theorem opcode_of_lotto (isLotto : operation opcode = .lotto) : opcode = OP_LOTTO := by
  refine operations_lotto _ (mem_operations ?_ ?_) isLotto
  · exact fun stackOp equal => by
      rw [isLotto] at equal
      cases equal
  · exact fun equal => by
      rw [isLotto] at equal
      cases equal

theorem opcode_of_checkSig
    {verify : Bool} (isCheck : operation opcode = .checkSig verify) :
    opcode = OP_CHECKSIG ∨ opcode = OP_CHECKSIGVERIFY := by
  refine operations_checkSig _ (mem_operations ?_ ?_) (by rw [isCheck]; rfl)
  · exact fun stackOp equal => by
      rw [isCheck] at equal
      cases equal
  · exact fun equal => by
      rw [isCheck] at equal
      cases equal

theorem opcode_of_checkMultiSig
    {verify : Bool} (isCheck : operation opcode = .checkMultiSig verify) :
    opcode = OP_CHECKMULTISIG ∨ opcode = OP_CHECKMULTISIGVERIFY := by
  refine operations_checkMultiSig _ (mem_operations ?_ ?_) (by rw [isCheck]; rfl)
  · exact fun stackOp equal => by
      rw [isCheck] at equal
      cases equal
  · exact fun equal => by
      rw [isCheck] at equal
      cases equal

/-- The number that a small opcode leaves. -/
theorem operation_of_small (low : OP_1 ≤ opcode) (high : opcode ≤ OP_16) :
    operation opcode = .onStack (.number (opcode.toNat - 80 : Nat)) := by
  rw [operation, if_pos (Or.inr ⟨low, high⟩)]
  rw [UInt8.le_iff_toNat_le, show OP_1.toNat = 81 from rfl] at low
  rw [show OP_1.toNat = 81 from rfl]
  congr 2
  omega

/-! ## The budget of a round -/

/-- A small number that was just read is on top, where operations are executed. -/
def TopAgrees (lastOpcode : UInt8) (state : EvalState) : Prop :=
  OP_1 ≤ lastOpcode → lastOpcode ≤ OP_16 → state.fExec = true →
    state.stack.head? = some (getvch (lastOpcode.toNat - 80 : Nat))

/-- An executed operation makes no more checks than it is counted for. -/
theorem executeChecks_le
    (agrees : fAccurate = true → TopAgrees lastOpcode state)
    (executing : state.fExec = true) :
    executeChecks args (operation opcode) state ≤
      sigOpsOf fAccurate lastOpcode opcode := by
  cases isOp : operation opcode with
  | checkSig verify =>
      rw [sigOpsOf, if_pos (opcode_of_checkSig isOp), executeChecks]
      split_ifs <;> omega
  | checkMultiSig verify =>
      have isMulti := opcode_of_checkMultiSig isOp
      have notSingle : ¬ (opcode = OP_CHECKSIG ∨ opcode = OP_CHECKSIGVERIFY) := by
        rcases isMulti with rfl | rfl <;> decide
      rw [sigOpsOf, if_neg notSingle, if_pos isMulti, executeChecks]
      refine checkMultiSigChecks_le fun vch held bn cast few => ?_
      split_ifs with small
      · rcases small with ⟨accurate, low, high⟩
        rw [agrees accurate low high executing] at held
        cases held
        rw [UInt8.le_iff_toNat_le, show OP_1.toNat = 81 from rfl] at low
        rw [UInt8.le_iff_toNat_le, show OP_16.toNat = 96 from rfl] at high
        rw [castToBigNum_getvch (by omega)] at cast
        cases cast
        rw [getint_natCast (by omega), show OP_1.toNat = 81 from rfl]
        omega
      · omega
  | _ => exact Nat.zero_le _

/-- Reading an operation keeps what is on top. -/
theorem TopAgrees.fetch
    (agrees : TopAgrees lastOpcode state) (read : fetch state = some (op, fetched)) :
    TopAgrees lastOpcode fetched := by
  rcases fetch_eq_some.mp read with ⟨-, -, -, -, rfl⟩
  exact agrees

/-- An executed small number is on top. -/
theorem topAgrees_of_dispatch (executed : dispatch args op state = some next) :
    TopAgrees op.opcode next := by
  intro low high executing
  have behind : OP_PUSHDATA4 < op.opcode := UInt8.lt_of_lt_of_le (by decide) low
  have inFront : ¬ OP_IF ≤ op.opcode :=
    UInt8.not_le.mpr (UInt8.lt_of_le_of_lt high (by decide))
  by_cases before : state.fExec = true
  · rw [dispatch_execute before behind, operation_of_small low high] at executed
    cases executed
    rfl
  · rw [dispatch, if_neg fun both => before both.1,
      if_neg (not_or.mpr ⟨before, fun both => inFront both.1⟩)] at executed
    cases executed
    exact absurd executing before

/-- What the rest of a script may still check. -/
def Allows (fAccurate : Bool) (state : EvalState) (bound : Nat) : Prop :=
  ∃ lastOpcode, sigOpsBehind fAccurate lastOpcode state.pc ≤ bound ∧
    (fAccurate = true →
      OP_LOTTO ∉ opcodes state.pc ∧ TopAgrees lastOpcode state)

theorem signatureChecks_le_allowed (allows : Allows fAccurate state bound) :
    signatureChecks args state ≤ bound := by
  rcases allows with ⟨lastOpcode, counted, agrees⟩
  rw [signatureChecks]
  split
  · exact Nat.zero_le _
  next op fetched read =>
    split_ifs with executing
    · have parsed := scan_of_getOp2 (fetch_eq_some.mp read).1
      rw [sigOpsBehind_op parsed] at counted
      have checks := @executeChecks_le args fetched op.opcode lastOpcode fAccurate
        (fun accurate => (agrees accurate).2.fetch read) executing
      omega
    · exact Nat.zero_le _

/-- An operation goes on behind itself, or behind the operand of `OP_LOTTO`. -/
theorem dispatch_pc_cases (executed : dispatch args op state = some next) :
    next.pc = state.pc ∨
      op.opcode = OP_LOTTO ∧
        ∃ operand, getOp2 state.pc = some operand ∧ next.pc = operand.pc := by
  rw [dispatch] at executed
  split_ifs at executed
  · cases executed
    exact Or.inl rfl
  · by_cases isLotto : operation op.opcode = .lotto
    · rw [isLotto] at executed
      rcases execute_lotto executed with ⟨operand, parsed, rfl⟩
      exact Or.inr ⟨opcode_of_lotto isLotto, operand, parsed, rfl⟩
    · exact Or.inl (execute_pc_eq executed isLotto)
  · cases executed
    exact Or.inl rfl

/-- A round pays for its checks and leaves enough for the rest. -/
theorem allows_step
    (allows : Allows fAccurate state bound) (taken : step args state = some next) :
    ∃ rest, Allows fAccurate next rest ∧ signatureChecks args state + rest ≤ bound := by
  rcases allows with ⟨lastOpcode, counted, agrees⟩
  rcases step_eq_some.mp taken with ⟨op, fetched, read, executed, -⟩
  have parsed := scan_of_getOp2 (fetch_eq_some.mp read).1
  have behind : fetched.pc = op.pc := by
    rcases fetch_eq_some.mp read with ⟨-, -, -, -, rfl⟩
    rfl
  have checks : signatureChecks args state ≤
      sigOpsOf fAccurate lastOpcode op.opcode := by
    rw [signatureChecks, read]
    dsimp only
    split_ifs with executing
    · exact executeChecks_le (fun accurate => (agrees accurate).2.fetch read)
        executing
    · exact Nat.zero_le _
  rw [sigOpsBehind_op parsed] at counted
  rw [opcodes_op parsed] at agrees
  rcases dispatch_pc_cases executed with same | ⟨isLotto, operand, operandParsed, same⟩
  · refine ⟨sigOpsBehind fAccurate op.opcode op.pc,
      ⟨op.opcode, (congrArg _ (same.trans behind)).le, fun accurate => ⟨?_, ?_⟩⟩,
      by omega⟩
    · rw [same, behind]
      exact fun listed => (agrees accurate).1 (List.mem_cons_of_mem _ listed)
    · exact topAgrees_of_dispatch executed
  · have inaccurate : fAccurate = false := by
      rw [← Bool.not_eq_true]
      intro accurate
      exact (agrees accurate).1 (isLotto ▸ List.mem_cons_self)
    rw [behind] at operandParsed
    rw [sigOpsBehind_op (scan_of_getOp2 operandParsed)] at counted
    refine ⟨sigOpsBehind fAccurate operand.opcode operand.pc,
      ⟨operand.opcode, (congrArg _ same).le, fun accurate => ?_⟩, by omega⟩
    rw [inaccurate] at accurate
    cases accurate

theorem spends_le
    {checks : Nat} (plain : fAccurate = true → OP_LOTTO ∉ opcodes script)
    (evaluated : (evalMachine args).Spends (signatureChecks args)
      (EvalState.start stack script) checks state) :
    checks + signatureChecks args state ≤ getSigOpCount fAccurate script := by
  refine Machine.Spends.le evaluated (?_ : Allows fAccurate _ _) ?_ ?_
  · refine ⟨OP_INVALIDOPCODE, le_refl _, fun accurate => ⟨plain accurate, ?_⟩⟩
    intro low high
    exact absurd high (by decide)
  · exact fun state bound => signatureChecks_le_allowed
  · exact fun state next bound => allows_step

/--
However a script is evaluated and however far, no more signatures are checked
than it was counted for.  With `OP_LOTTO` in the script this holds for the count
that takes twenty keys.
-/
theorem signatureChecks_le_getSigOpCount
    (args : EvalArgs) (fAccurate : Bool) (stack : List Valtype) (script : CScript)
    (state : EvalState) (checks : Nat)
    (plain : fAccurate = true → OP_LOTTO ∉ opcodes script)
    (evaluated : (evalMachine args).Spends (signatureChecks args)
      (EvalState.start stack script) checks state) :
    checks + signatureChecks args state ≤ getSigOpCount fAccurate script :=
  spends_le plain evaluated

/-- The only check of a script that pays to a key is the one it is counted for. -/
theorem signatureChecks_le_getSigOpCount_generator :
    0 + signatureChecks (sampleArgs 0)
        ⟨[OP_CHECKSIG], 0x21 :: (generator ++ [OP_CHECKSIG]), [generator, [0x01]], [],
          [], 0⟩ ≤
      getSigOpCount true (0x21 :: (generator ++ [OP_CHECKSIG])) :=
  signatureChecks_le_getSigOpCount (sampleArgs 0) true [[0x01]]
    (0x21 :: (generator ++ [OP_CHECKSIG])) _ 0 (fun _ => by decide)
    (Machine.Spends.head rfl (Machine.Spends.refl _))

/-! ## The script that is paid to by its hash -/

/-- The number that an opcode in front of `OP_NOP` leaves. -/
theorem operation_of_le
    (behind : OP_PUSHDATA4 < opcode) (high : opcode ≤ OP_16) :
    operation opcode = .invalid ∨
      ∃ n : Int, -1 ≤ n ∧ n ≤ 16 ∧ operation opcode = .onStack (.number n) := by
  by_cases low : OP_1 ≤ opcode
  · have small := operation_of_small low high
    rw [UInt8.le_iff_toNat_le, show OP_16.toNat = 96 from rfl] at high
    exact Or.inr ⟨_, by omega, by omega, small⟩
  · have number : opcode = OP_1NEGATE ∨ opcode = 0x50 := by
      rw [UInt8.not_le] at low
      rw [UInt8.lt_iff_toNat_lt] at behind low
      rw [← UInt8.toNat_inj, ← UInt8.toNat_inj, show OP_1NEGATE.toNat = 79 from rfl,
        show (0x50 : UInt8).toNat = 80 from rfl]
      rw [show OP_PUSHDATA4.toNat = 78 from rfl] at behind
      rw [show OP_1.toNat = 81 from rfl] at low
      omega
    rcases number with rfl | rfl
    · exact Or.inr ⟨-1, by decide, by decide, rfl⟩
    · exact Or.inl rfl

/-- The script that a small number is has no signature operation. -/
theorem getSigOpCount_number
    {n : Int} (low : -1 ≤ n) (high : n ≤ 16) : getSigOpCount true (getvch n) = 0 := by
  interval_cases n <;> rfl

/-- The last push, as far as a script of pushes was evaluated. -/
structure Pushing (scriptSig : CScript) (state : EvalState) : Prop where
  outside : state.vfExec = []
  pushes : isPushOnly state.pc = true
  last : ∃ data,
    lastPushLoop state.pc.length state.pc data =
      lastPushLoop scriptSig.length scriptSig [] ∧
    ∀ vch, state.stack.head? = some vch →
      vch = data ∨ data = [] ∧ getSigOpCount true vch = 0

theorem lastPushLoop_bound {data : List UInt8} (enough : script.length ≤ bound) :
    lastPushLoop bound script data = lastPushLoop script.length script data := by
  induction bound using Nat.strong_induction_on generalizing script data with
  | _ bound inductionHypothesis =>
      cases script with
      | nil => cases bound <;> rfl
      | cons byte rest =>
          cases bound with
          | zero => exact absurd enough (by simp)
          | succ bound =>
              rw [List.length_cons, lastPushLoop, lastPushLoop]
              cases parsed : Scan.getOp2 (byte :: rest) with
              | none => rfl
              | some op =>
                  have shorter := Scan.getOp2_length parsed
                  rw [List.length_cons] at enough shorter
                  dsimp only
                  rw [inductionHypothesis bound (Nat.lt_succ_self bound) (by omega),
                    inductionHypothesis rest.length (by omega) (by omega)]

theorem lastPushLoop_op
    {data : List UInt8} (parsed : Scan.getOp2 script = some op)
    (low : op.opcode ≤ OP_16) :
    lastPushLoop script.length script data =
      lastPushLoop op.pc.length op.pc op.vchRet := by
  cases script with
  | nil => cases parsed
  | cons byte rest =>
      have shorter := Scan.getOp2_length parsed
      rw [List.length_cons] at shorter ⊢
      rw [lastPushLoop, parsed]
      dsimp only
      rw [if_neg (UInt8.not_lt.mpr low), lastPushLoop_bound (by omega)]

theorem pushing_step
    {scriptSig : CScript} (pushing : Pushing scriptSig state)
    (taken : step args state = some next) : Pushing scriptSig next := by
  rcases step_eq_some.mp taken with ⟨op, fetched, read, executed, -⟩
  rcases fetch_eq_some.mp read with ⟨parsed, -, -, -, same⟩
  rcases pushing with ⟨outside, pushes, data, last, -⟩
  have executing : fetched.fExec = true := by
    rw [same, EvalState.fExec, outside]
    rfl
  have low : op.opcode ≤ OP_16 := by
    rw [← UInt8.not_lt]
    intro above
    rw [isPushOnly] at pushes
    split at pushes
    next stops =>
      rw [parsed] at stops
      cases stops
    next other found =>
      cases parsed.symm.trans found
      rw [if_pos above] at pushes
      cases pushes
  have more := (StandardOutputs.isPushOnly_of_getOp2 parsed low).symm.trans pushes
  rw [lastPushLoop_op (scan_of_getOp2 parsed) low] at last
  by_cases isPush : op.opcode ≤ OP_PUSHDATA4
  · rw [dispatch_push executing isPush] at executed
    cases executed
    subst same
    refine ⟨outside, more, op.vchRet, last, fun vch top => Or.inl ?_⟩
    cases top
    rfl
  · rw [UInt8.not_le] at isPush
    have empty := (eq_cons_of_opcode parsed isPush).2
    rw [dispatch_execute executing isPush] at executed
    rcases operation_of_le isPush low with invalid | ⟨n, least, most, isNumber⟩
    · rw [invalid] at executed
      cases executed
    · rw [isNumber] at executed
      cases executed
      subst same
      refine ⟨outside, more, op.vchRet, last, fun vch top => Or.inr ⟨empty, ?_⟩⟩
      cases top
      exact getSigOpCount_number least most

/-- What is on top behind a script of pushes is counted as its last push. -/
theorem getSigOpCount_le_of_pushes
    {scriptSig : CScript} {subscript : Valtype} {rest : List Valtype}
    (pushes : isPushOnly scriptSig = true)
    (evaluated : evalScript args [] scriptSig = some (subscript :: rest)) :
    getSigOpCount true subscript ≤ getScriptHashSigOpCount scriptSig := by
  rcases evalScript_eq_some.mp evaluated with ⟨-, last, reaches, done, -, left⟩
  have pushing : Pushing scriptSig last := by
    refine reaches.invariant ⟨rfl, pushes, [], rfl, fun vch top => ?_⟩
      fun _ _ => pushing_step
    cases top
  rcases pushing with ⟨-, -, data, found, top⟩
  rw [done] at found
  rw [getScriptHashSigOpCount, ← found]
  change _ ≤ getSigOpCount true data
  rcases top subscript (by rw [left]; rfl) with rfl | ⟨-, none⟩
  · exact le_refl _
  · rw [none]
    exact Nat.zero_le _

end DSValue.Script.SigOps
