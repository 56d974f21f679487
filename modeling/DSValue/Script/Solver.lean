import DSValue.Script.Scan

/-!
# Standard outputs

`Solver` compares a script with templates, operation by operation, and returns
what stands in their places: public keys, hashes and small numbers.
`ExtractDestinations` makes addresses of these.  An output without a script is
not standard.
-/

namespace DSValue.Script.Solver

open DSValue.Script.Scan

def OP_0 : UInt8 := 0x00
def OP_SMALLDATA : UInt8 := 0xf9
def OP_SMALLINTEGER : UInt8 := 0xfa
def OP_PUBKEYS : UInt8 := 0xfb
def OP_PUBKEYHASH : UInt8 := 0xfd
def OP_PUBKEY : UInt8 := 0xfe

/-- `MAX_OP_RETURN_RELAY`. -/
def MAX_OP_RETURN_RELAY : Nat := 40

/-- `txnouttype`, without the type of what is not standard. -/
inductive TxnOutType where
  | pubkey
  | pubkeyhash
  | scripthash
  | multisig
  | nullData
  | lotto
deriving DecidableEq

/-- The templates in the order of `mTemplates`. -/
def mTemplates : List (TxnOutType × List UInt8) :=
  [(.pubkey, [OP_PUBKEY, OP_CHECKSIG]),
    (.pubkeyhash,
      [OP_DUP, OP_HASH160, OP_PUBKEYHASH, OP_EQUALVERIFY, OP_CHECKSIG]),
    (.multisig,
      [OP_SMALLINTEGER, OP_PUBKEYS, OP_SMALLINTEGER, OP_CHECKMULTISIG]),
    (.nullData, [OP_RETURN, OP_SMALLDATA]),
    (.nullData, [OP_RETURN]),
    (.lotto,
      [OP_LOTTOUNSPEND, OP_DUP, OP_HASH160, OP_PUBKEYHASH, OP_EQUALVERIFY,
        OP_CHECKSIG, OP_LOTTO])]

/-- `CScript::IsPayToScriptHash`. -/
def isPayToScriptHash (script : CScript) : Bool :=
  script.length = 23 ∧ script.take 2 = [OP_HASH160, 0x14] ∧
    script.drop 22 = [OP_EQUAL]

/-! ## Comparing with a template -/

/-- `DecodeOP_N` of an opcode that stands for a small number. -/
def decodeOpN (opcode : UInt8) : Option UInt8 :=
  if opcode = OP_0 then some 0
  else if OP_1 ≤ opcode ∧ opcode ≤ OP_16 then some (opcode - (OP_1 - 1))
  else none

/-- The loop over public keys, which stops at the first other operation. -/
def takePubKeys :
    Nat → ParsedOp → List (List UInt8) → ParsedOp × List (List UInt8)
  | 0, op, vSolutions => (op, vSolutions)
  | bound + 1, op, vSolutions =>
      if 33 ≤ op.vchRet.length ∧ op.vchRet.length ≤ 65 then
        match getOp2 op.pc with
        | none => (⟨OP_INVALIDOPCODE, [], op.pc⟩, vSolutions ++ [op.vchRet])
        | some next => takePubKeys bound next (vSolutions ++ [op.vchRet])
      else (op, vSolutions)

/-- What comparing an operation with an opcode of a template decides. -/
inductive Matched where
  | differs
  | accepted (vSolutions : List (List UInt8))
  | continued (vSolutions : List (List UInt8))

/-- The comparison behind the loop over public keys. -/
def matchOp (op : ParsedOp) (opcode2 : UInt8)
    (vSolutions : List (List UInt8)) : Matched :=
  if opcode2 = OP_PUBKEY then
    if op.vchRet.length < 33 ∨ 65 < op.vchRet.length then .differs
    else .continued (vSolutions ++ [op.vchRet])
  else if opcode2 = OP_PUBKEYHASH then
    if op.vchRet.length ≠ 20 then .differs
    else .continued (vSolutions ++ [op.vchRet])
  else if opcode2 = OP_SMALLINTEGER then
    match decodeOpN op.opcode with
    | none => .differs
    | some n => .continued (vSolutions ++ [[n]])
  else if opcode2 = OP_SMALLDATA then
    if MAX_OP_RETURN_RELAY < op.vchRet.length then .differs
    else .continued vSolutions
  else if op.opcode = opcode2 ∧ opcode2 = OP_LOTTO then .accepted vSolutions
  else if op.opcode ≠ opcode2 ∨ op.vchRet ≠ [] then .differs
  else .continued vSolutions

/--
The comparison of a script with a template, which ends without a match when one
of them cannot be read further.
-/
def matchTemplate :
    List UInt8 → CScript → List (List UInt8) → Option (List (List UInt8))
  | [], [], vSolutions => some vSolutions
  | [], _ :: _, _ => none
  | opcode2 :: template, script, vSolutions =>
      match getOp2 script with
      | none => none
      | some op =>
          if opcode2 = OP_PUBKEYS then
            let taken := takePubKeys script.length op vSolutions
            match template with
            | [] => none
            | opcode2 :: template =>
                match matchOp taken.1 opcode2 taken.2 with
                | .differs => none
                | .accepted vSolutions => some vSolutions
                | .continued vSolutions =>
                    matchTemplate template taken.1.pc vSolutions
          else
            match matchOp op opcode2 vSolutions with
            | .differs => none
            | .accepted vSolutions => some vSolutions
            | .continued vSolutions => matchTemplate template op.pc vSolutions

/-- The checks of a script that matches the multisignature template. -/
def isMultisig (vSolutions : List (List UInt8)) : Bool :=
  match vSolutions.head?.bind List.head?,
      vSolutions.getLast?.bind List.head? with
  | some m, some n =>
      1 ≤ m ∧ 1 ≤ n ∧ m ≤ n ∧ vSolutions.length - 2 = n.toNat
  | _, _ => false

/-- The loop over the templates. -/
def solverLoop (script : CScript) :
    List (TxnOutType × List UInt8) →
      Option (TxnOutType × List (List UInt8))
  | [] => none
  | (typeRet, template) :: templates =>
      match matchTemplate template script [] with
      | none => solverLoop script templates
      | some vSolutions =>
          if typeRet = .multisig ∧ ¬ isMultisig vSolutions then none
          else some (typeRet, vSolutions)

/-- `Solver`. -/
def solver (script : CScript) : Option (TxnOutType × List (List UInt8)) :=
  if isPayToScriptHash script then
    some (.scripthash, [(script.drop 2).take 20])
  else solverLoop script mTemplates

/-! ## Destinations -/

/-- `CTxDestination`. -/
inductive CTxDestination where
  | noDestination
  | keyID (hash : List UInt8)
  | scriptID (hash : List UInt8)
deriving DecidableEq

/--
What addresses are computed with: `Hash160` and `CBitcoinAddress::ToString`.
-/
structure AddressOps where
  hash160 : List UInt8 → List UInt8
  toString : CTxDestination → String

/-- `CPubKey::GetLen`. -/
def getLen (chHeader : UInt8) : Nat :=
  if chHeader = 2 ∨ chHeader = 3 then 33
  else if chHeader = 4 ∨ chHeader = 6 ∨ chHeader = 7 then 65
  else 0

/-- The bytes of a `CPubKey`, none when it is invalid. -/
def pubKeyBytes : List UInt8 → List UInt8
  | [] => []
  | chHeader :: rest =>
      if getLen chHeader = (chHeader :: rest).length then chHeader :: rest
      else []

/-- `CPubKey::GetID`. -/
def AddressOps.getID (ops : AddressOps) (vch : List UInt8) : CTxDestination :=
  .keyID (ops.hash160 (pubKeyBytes vch))

/-- `uint160` of a vector. -/
def toUint160 (vch : List UInt8) : List UInt8 :=
  if vch.length = 20 then vch else List.replicate 20 0

/-- `ExtractDestination`. -/
def AddressOps.extractDestination (ops : AddressOps) (script : CScript) :
    Option CTxDestination :=
  match solver script with
  | some (.pubkey, vch :: _) => some (ops.getID vch)
  | some (.pubkeyhash, vch :: _) => some (.keyID (toUint160 vch))
  | some (.scripthash, vch :: _) => some (.scriptID (toUint160 vch))
  | some (.lotto, vch :: _) => some (.keyID (toUint160 vch))
  | _ => none

/-- `ExtractDestinations`. -/
def AddressOps.extractDestinations (ops : AddressOps) (script : CScript) :
    Option (List CTxDestination) :=
  match solver script with
  | none => none
  | some (.nullData, _) => none
  | some (.multisig, vSolutions) =>
      some (vSolutions.tail.dropLast.map ops.getID)
  | some _ => (ops.extractDestination script).map fun address => [address]

/-- The address of the first destination of a script. -/
def AddressOps.firstAddress (ops : AddressOps) (script : CScript) :
    Option String :=
  (ops.extractDestinations script).bind fun addresses =>
    addresses.head?.map ops.toString

/-- Nobody is paid by an output without a script. -/
theorem firstAddress_nil (ops : AddressOps) : ops.firstAddress [] = none := rfl

theorem isMultisig_of_solverLoop
    {script : CScript} {templates : List (TxnOutType × List UInt8)}
    {vSolutions : List (List UInt8)}
    (solved : solverLoop script templates = some (.multisig, vSolutions)) :
    isMultisig vSolutions = true := by
  induction templates with
  | nil => cases solved
  | cons head templates inductionHypothesis =>
      rcases head with ⟨typeRet, template⟩
      rw [solverLoop] at solved
      split at solved
      · exact inductionHypothesis solved
      · split_ifs at solved with failed
        cases solved
        by_contra notMultisig
        exact failed ⟨rfl, notMultisig⟩

/-- A multisignature script lists a key. -/
theorem length_of_isMultisig
    {vSolutions : List (List UInt8)} (isMulti : isMultisig vSolutions = true) :
    3 ≤ vSolutions.length := by
  rw [isMultisig] at isMulti
  split at isMulti
  · rw [decide_eq_true_eq] at isMulti
    rcases isMulti with ⟨-, positive, -, number⟩
    rw [UInt8.le_iff_toNat_le] at positive
    have one : (1 : UInt8).toNat = 1 := rfl
    omega
  · cases isMulti

/-- There is a first destination wherever there are any. -/
theorem extractDestinations_ne_nil
    {ops : AddressOps} {script : CScript} {addresses : List CTxDestination}
    (extracted : ops.extractDestinations script = some addresses) :
    addresses ≠ [] := by
  rw [AddressOps.extractDestinations] at extracted
  split at extracted
  · cases extracted
  · cases extracted
  next vSolutions solved =>
    rw [solver] at solved
    split_ifs at solved
    · cases solved
    · have many := length_of_isMultisig (isMultisig_of_solverLoop solved)
      cases extracted
      rw [← List.length_pos_iff, List.length_map, List.length_dropLast,
        List.length_tail]
      omega
  · rcases Option.map_eq_some_iff.mp extracted with ⟨address, -, rfl⟩
    exact List.cons_ne_nil _ _

/-- The bound on the number of public keys does not matter. -/
theorem takePubKeys_bound
    {first second : Nat} {op : ParsedOp} {vSolutions : List (List UInt8)}
    (enoughFirst : op.pc.length < first)
    (enoughSecond : op.pc.length < second) :
    takePubKeys first op vSolutions = takePubKeys second op vSolutions := by
  induction first generalizing second op vSolutions with
  | zero => exact absurd enoughFirst (Nat.not_lt_zero _)
  | succ first inductionHypothesis =>
      cases second with
      | zero => exact absurd enoughSecond (Nat.not_lt_zero _)
      | succ second =>
          rw [takePubKeys, takePubKeys]
          split_ifs
          · cases parsed : getOp2 op.pc with
            | none => rfl
            | some next =>
                have shorter := getOp2_length parsed
                exact inductionHypothesis (by omega) (by omega)
          · rfl

end DSValue.Script.Solver
