import DSValue.Script.StandardOutputs

/-!
# Scripts of pushes

`PushAll` writes a list of values, one push behind another.  Evaluated, such a
script puts the values on the stack, unless one of them is too long.  The second
part is about `FindAndDelete`: a script that does not push a value loses nothing
when the value is deleted from it.
-/

namespace DSValue.Script.Pushes

open DSValue.Lib
open DSValue.Lib.Encoding
open DSValue.Script.Scan hiding getOp2 getOp2_length
open DSValue.Script.PushCodec
open DSValue.Script.CodeSeparators
open DSValue.Script.Number
open DSValue.Script.Interpreter
open DSValue.Script.Execution
open DSValue.Script.StandardOutputs

variable {args : EvalArgs} {op : ParsedOp} {script code pc rest : CScript}
  {b vchSig : Valtype} {values others stack result : List Valtype}
  {final : EvalState}

/-! ## Writing them -/

/-- `PushAll`. -/
def pushAll (values : List Valtype) : CScript := values.foldl push []

theorem push_eq_append (script : CScript) (b : Valtype) :
    push script b = script ++ push [] b := by
  rw [push, push]
  split_ifs <;> rw [List.nil_append]

theorem foldl_push (values : List Valtype) (script : CScript) :
    values.foldl push script = script ++ pushAll values := by
  induction values generalizing script with
  | nil => rw [pushAll, List.foldl_nil, List.foldl_nil, List.append_nil]
  | cons b values inductionHypothesis =>
      rw [pushAll, List.foldl_cons, List.foldl_cons, inductionHypothesis,
        inductionHypothesis (push [] b), push_eq_append, List.append_assoc]

theorem pushAll_append (values others : List Valtype) :
    pushAll (values ++ others) = pushAll values ++ pushAll others := by
  rw [pushAll, List.foldl_append, foldl_push, ← pushAll]

theorem pushAll_cons (b : Valtype) (values : List Valtype) :
    pushAll (b :: values) = push [] b ++ pushAll values :=
  foldl_push values (push [] b)

/-- One more value is pushed behind the others. -/
theorem push_pushAll (values : List Valtype) (b : Valtype) :
    push (pushAll values) b = pushAll (values ++ [b]) := by
  rw [pushAll_append, push_eq_append]
  rfl

theorem length_push_le (b : Valtype) : (push [] b).length ≤ b.length + 5 := by
  rw [push]
  split_ifs <;>
    simp only [List.nil_append, List.length_append, List.length_cons,
      List.length_nil, length_littleEndian] <;> omega

theorem length_pushAll_le {bound : Nat} (small : ∀ b ∈ values, b.length ≤ bound) :
    (pushAll values).length ≤ values.length * (bound + 5) := by
  induction values with
  | nil => exact Nat.zero_le _
  | cons b values inductionHypothesis =>
      rw [List.forall_mem_cons] at small
      have here := length_push_le b
      have behind := inductionHypothesis small.2
      rw [pushAll_cons, List.length_append, List.length_cons, Nat.succ_mul]
      omega

theorem pushAll_nil : pushAll [] = [] := rfl

/-- `OP_0` is the push of nothing. -/
theorem pushAll_op0 : pushAll [[]] = [Solver.OP_0] := rfl

/-! ## Reading them -/

theorem pushOpcode_le (b : Valtype) : pushOpcode b ≤ OP_PUSHDATA4 := by
  rw [pushOpcode]
  split_ifs with tiny
  · exact UInt8.le_of_lt
      (UInt8.lt_of_lt_of_le (@readPushSize_direct b [] tiny).1 (by decide))
  all_goals decide

theorem getOp2_push_front (fits : (b ++ rest).length < 2 ^ 32) :
    getOp2 (push [] b ++ rest) = some ⟨pushOpcode b, b, rest⟩ :=
  @getOp2_push_append b rest [] fits

/-- The size of what is pushed is bounded by the size of the pushes. -/
theorem le_length_push (b : Valtype) : b.length ≤ (push [] b).length := by
  rw [push]
  split_ifs <;>
    simp only [List.nil_append, List.length_append, List.length_cons,
      List.length_nil] <;> omega

theorem getOp2_pushAll_cons (fits : (pushAll (b :: values)).length < 2 ^ 32) :
    getOp2 (pushAll (b :: values)) = some ⟨pushOpcode b, b, pushAll values⟩ := by
  have sized := le_length_push b
  rw [pushAll_cons, List.length_append] at fits
  rw [pushAll_cons]
  exact getOp2_push_front (by rw [List.length_append]; omega)

theorem length_pushAll_cons_le :
    (pushAll values).length ≤ (pushAll (b :: values)).length := by
  rw [pushAll_cons, List.length_append]
  exact Nat.le_add_left _ _

theorem isPushOnly_pushAll (fits : (pushAll values).length < 2 ^ 32) :
    isPushOnly (pushAll values) = true := by
  induction values with
  | nil => exact isPushOnly_nil
  | cons b values inductionHypothesis =>
      rw [isPushOnly_of_getOp2 (getOp2_pushAll_cons fits)
        (UInt8.le_trans (pushOpcode_le b) (by decide))]
      exact inductionHypothesis (Nat.lt_of_le_of_lt length_pushAll_cons_le fits)

/-! ## Evaluating them -/

/-- An operand that is too long stops the script. -/
theorem exec_tooLong
    {state : EvalState} (parsed : getOp2 state.pc = some op)
    (long : 520 < op.vchRet.length) :
    (evalMachine args).exec state = none := by
  have more : (evalMachine args).done state = false := by
    change state.pc.isEmpty = false
    cases code : state.pc with
    | nil =>
        rw [code] at parsed
        cases parsed
    | cons first others => rfl
  rw [Machine.exec_of_not_done more]
  change (step args state).bind _ = none
  rw [step, fetch, parsed]
  dsimp only
  rw [if_pos long]
  rfl

/-- The values are put on the stack, unless one is too long or too many are. -/
theorem exec_pushAll
    (fits : (pushAll values).length < 2 ^ 32) (room : stack.length ≤ 1000) :
    (evalMachine args).exec ⟨pushAll values, code, stack, [], [], 0⟩ = some final ↔
      (∀ b ∈ values, b.length ≤ 520) ∧ values.length + stack.length ≤ 1000 ∧
        final = ⟨[], code, values.reverse ++ stack, [], [], 0⟩ := by
  induction values generalizing stack with
  | nil =>
      rw [pushAll_nil, exec_nil, Option.some_inj, List.length_nil, Nat.zero_add,
        and_iff_right room,
        and_iff_right (fun _ listed => absurd listed List.not_mem_nil)]
      exact eq_comm
  | cons b values inductionHypothesis =>
      have read := getOp2_pushAll_cons fits
      have behind := Nat.lt_of_le_of_lt length_pushAll_cons_le fits
      rw [List.forall_mem_cons, List.length_cons, List.reverse_cons,
        List.append_assoc, List.singleton_append]
      by_cases short : b.length ≤ 520
      swap
      · rw [exec_tooLong read (Nat.lt_of_not_le short)]
        exact iff_of_false (fun equal => by cases equal) fun all => short all.1.1
      rw [exec_push read (pushOpcode_le b) short, continueWith_eq_some]
      by_cases more : stack.length + 1 ≤ 1000
      · rw [inductionHypothesis behind (by rw [List.length_cons]; exact more),
          List.length_cons]
        dsimp only
        rw [List.length_nil, Nat.add_zero, and_iff_right more, and_iff_right short,
          show values.length + (stack.length + 1) =
            values.length + 1 + stack.length by omega]
      · rw [List.length_cons, List.length_nil]
        exact iff_of_false (fun both => more both.1) fun all => by
          have few := all.2.1
          omega

theorem evalScript_pushAll (room : stack.length ≤ 1000) :
    evalScript args stack (pushAll values) = some result ↔
      (pushAll values).length ≤ 10000 ∧ (∀ b ∈ values, b.length ≤ 520) ∧
        values.length + stack.length ≤ 1000 ∧ result = values.reverse ++ stack := by
  by_cases short : (pushAll values).length ≤ 10000
  swap
  · rw [evalScript, if_pos (Nat.lt_of_not_le short)]
    exact iff_of_false (fun equal => by cases equal) fun all => short all.1
  rw [evalScript_of_le short, Option.bind_eq_some_iff, and_iff_right short]
  constructor
  · rintro ⟨final, ended, finished⟩
    rcases (exec_pushAll (by omega) room).mp ended with ⟨small, few, rfl⟩
    cases finished
    exact ⟨small, few, rfl⟩
  · rintro ⟨small, few, rfl⟩
    exact ⟨_, (exec_pushAll (by omega) room).mpr ⟨small, few, rfl⟩, rfl⟩

/-! ## Deleting what is not pushed -/

/-- The operands of the operations of a script. -/
def operands (script : CScript) : List Valtype :=
  match _ : getOp2 script with
  | none => []
  | some op => op.vchRet :: operands op.pc
termination_by script.length
decreasing_by
  rename_i parsed
  exact getOp2_length parsed

theorem operands_op (parsed : getOp2 script = some op) :
    operands script = op.vchRet :: operands op.pc := by
  rw [operands]
  split
  next stops =>
    rw [parsed] at stops
    cases stops
  next read same =>
    cases parsed.symm.trans same
    rfl

theorem operands_nil : operands [] = [] := by
  rw [operands]
  rfl

/-- A push at a position is an operand of the script from there. -/
theorem eraseAll_of_absent
    (absent : vchSig ∉ operands pc) (fits : pc.length < 2 ^ 32) (nFound : Int32) :
    eraseAll (push [] vchSig) pc nFound = (pc, nFound) := by
  rw [eraseAll, if_neg]
  rintro ⟨-, sized, front⟩
  have whole : push [] vchSig ++ pc.drop (push [] vchSig).length = pc := by
    conv_rhs => rw [← List.take_append_drop (push [] vchSig).length pc, front]
  have shorter := le_length_push vchSig
  have read := @getOp2_push_front (pc.drop (push [] vchSig).length) vchSig (by
    rw [List.length_append, List.length_drop]
    omega)
  rw [whole] at read
  rw [operands_op read] at absent
  exact absent List.mem_cons_self

theorem deleteLoop_of_absent
    (absent : vchSig ∉ operands pc) (fits : pc.length < 2 ^ 32)
    (front : CScript) (nFound : Int32) :
    deleteLoop (push [] vchSig) front pc nFound = (front ++ pc, nFound) := by
  induction bound : pc.length using Nat.strong_induction_on
    generalizing pc front with
  | _ length inductionHypothesis =>
      rw [deleteLoop, eraseAll_of_absent absent fits]
      dsimp only
      split
      · rfl
      next op parsed =>
        have shorter := getOp2_length parsed
        rw [operands_op parsed, List.mem_cons, not_or] at absent
        rw [inductionHypothesis _ (by omega) absent.2 (by omega) _ rfl,
          List.append_assoc]
        rcases getOp2_suffix parsed with ⟨before, whole⟩
        have sized := congrArg List.length whole
        rw [List.length_append] at sized
        rw [show pc.length - op.pc.length = before.length by omega, ← whole,
          List.take_left]

/-- `FindAndDelete` finds nothing that the script does not push. -/
theorem dropSignatures_of_absent
    {sigs : List Valtype} (absent : ∀ vchSig ∈ sigs, vchSig ∉ operands code)
    (fits : code.length < 2 ^ 32) : dropSignatures code sigs = code := by
  induction sigs with
  | nil => rfl
  | cons vchSig sigs inductionHypothesis =>
      rw [List.forall_mem_cons] at absent
      have kept : (findAndDelete code (push [] vchSig)).1 = code := by
        rw [findAndDelete]
        split_ifs
        · rfl
        · rw [deleteLoop_of_absent absent.1 fits, List.nil_append]
      rw [dropSignatures, List.foldl_cons, kept]
      exact inductionHypothesis absent.2

end DSValue.Script.Pushes
