import DSValue.Merkle.RootBinding

/-!
# The file of the lottery data

`CObjectFile` keeps the encrypted lottery data in a JSON object with one
record for each lottery.  The hashes of the clear data are the leaves of a
merkle tree whose root is built in, in the order of the records, while
`ReadClottoData` looks a record up by its name.
-/

namespace DSValue.Lotto.ObjectFile

open DSValue.Lib
open DSValue.Lib.Encoding
open DSValue.Core.Serialize
open DSValue.Merkle.BlockTree
open DSValue.Merkle.RootBinding

/-! ## JSON values -/

inductive Value_type where
  | obj_type
  | array_type
  | str_type
  | bool_type
  | int_type
  | real_type
  | null_type
deriving DecidableEq

/-- `json_spirit::Value`; of the types that are never read it has no data. -/
inductive Value where
  | obj (members : List (String × Value))
  | str (text : String)
  | array
  | bool
  | int
  | real
  | null

/-- `json_spirit::Object`. -/
abbrev Object := List (String × Value)

/-- What `check_type` and `Assert` throw, and the faults of the merkle tree. -/
inductive Failure where
  | valueIsType (found expected : Value_type)
  | assertion
  | fault (fault : Fault)
deriving DecidableEq

def Value.type : Value → Value_type
  | .obj _ => .obj_type
  | .str _ => .str_type
  | .array => .array_type
  | .bool => .bool_type
  | .int => .int_type
  | .real => .real_type
  | .null => .null_type

def Value.is_null : Value → Bool
  | .null => true
  | _ => false

def Value.get_obj : Value → Except Failure Object
  | .obj members => pure members
  | value => throw (.valueIsType value.type .obj_type)

def Value.get_str : Value → Except Failure String
  | .str text => pure text
  | value => throw (.valueIsType value.type .str_type)

def find_value (obj : Object) (name : String) : Value :=
  match obj.find? fun member => member.1 = name with
  | some member => member.2
  | none => .null

/-! ## Strings -/

def isspace (c : Char) : Bool :=
  c.toNat = 32 ∨ (9 ≤ c.toNat ∧ c.toNat ≤ 13)

/-- `HexDigit`, without a value for what is not a digit. -/
def hexDigit (c : Char) : Option UInt8 :=
  if 48 ≤ c.toNat ∧ c.toNat ≤ 57 then some (c.toNat - 48).toUInt8
  else if 65 ≤ c.toNat ∧ c.toNat ≤ 70 then some (c.toNat - 55).toUInt8
  else if 97 ≤ c.toNat ∧ c.toNat ≤ 102 then some (c.toNat - 87).toUInt8
  else none

/-- The loop of `ParseHex`, after the first digit of a byte when there is one. -/
def parseDigits : Option UInt8 → List Char → List UInt8
  | _, [] => []
  | none, c :: psz =>
      if isspace c then parseDigits none psz
      else
        match hexDigit c with
        | none => []
        | some n => parseDigits (some n) psz
  | some n, c :: psz =>
      match hexDigit c with
      | none => []
      | some low => (n <<< 4 ||| low) :: parseDigits none psz

/-- `ParseHex`. -/
def parseHex (psz : List Char) : List UInt8 := parseDigits none psz

/-- The constructor of `uint256` from a vector. -/
def uint256OfVector (vch : List UInt8) : Uint256 :=
  if vch.length = 32 then BitVec.ofNat 256 (leValue vch) else 0

/-- `itostr`. -/
def itostr (n : Int32) : String := toString n.toInt

/-! ## The file -/

/-- `CObjectFile`. -/
structure CObjectFile where
  LotteryDataMerkleHash : String
  Objmain : Object
  Objlotto : Object

variable (hash : List UInt8 → Uint256)
  (decryptData : List UInt8 → List UInt8 → Option (List UInt8))

/-- `Hash` of two hashes. -/
def hashPair (left right : Uint256) : Uint256 :=
  hash (writeUint256 left ++ writeUint256 right)

/-- `uint256(ParseHex(text))`. -/
def parseHash (text : String) : Uint256 :=
  uint256OfVector (parseHex text.toList)

/-- The loop of `GetLottoObject` over the records. -/
def recordHashes : Object → Except Failure (List Uint256)
  | [] => pure []
  | record :: Objlotto => do
      let members ← record.2.get_obj
      if (find_value members "hash").is_null then recordHashes Objlotto
      else do
        let text ← (find_value members "hash").get_str
        let vhash ← recordHashes Objlotto
        pure (parseHash text :: vhash)

/-- `CObjectFile::BuildMerkleTree`. -/
def buildMerkleTree (vhash : List Uint256) : Except Failure Uint256 :=
  (Merkle.BlockTree.buildMerkleTree (hashPair hash) vhash).mapError .fault

/-- `CObjectFile::GetLottoObject`. -/
def getLottoObject (file : CObjectFile) : Except Failure (Bool × CObjectFile) := do
  let rootkey := find_value file.Objmain "lottorydata"
  if rootkey.is_null then pure (false, { file with Objlotto := [] })
  else do
    let Objlotto ← rootkey.get_obj
    let read := { file with Objlotto := Objlotto }
    if Objlotto.isEmpty then pure (false, read)
    else do
      let ohash ← (find_value Objlotto "MerkleHash").get_obj
      let merkleHash ← (find_value ohash "MerkleHash").get_str
      if merkleHash ≠ file.LotteryDataMerkleHash then pure (false, read)
      else do
        let vhash ← recordHashes Objlotto
        let mhashtmp ← buildMerkleTree hash vhash
        pure (parseHash merkleHash = mhashtmp, read)

/-- `CObjectFile::ReadClottoData`. -/
def readClottoData (file : CObjectFile) (index : Int32) (passwd : Uint256) :
    Except Failure (List UInt8) := do
  let mm := find_value file.Objlotto (itostr index)
  if mm.type ≠ .obj_type then throw .assertion
  else do
    let members ← mm.get_obj
    let endata ← (find_value members "endata").get_str
    let text ← (find_value members "hash").get_str
    match decryptData (writeUint256 passwd) (parseHex endata.toList) with
    | none => throw .assertion
    | some vReClearData =>
        if parseHash text ≠ hash vReClearData then throw .assertion
        else pure vReClearData

/-! ## The records with a hash -/

variable {hash decryptData} {name text merkleHash : String}
  {record : String × Value} {members Objlotto : Object}
  {vhash otherHashes : List Uint256} {root : Uint256}

/-- Whether the merkle tree covers a record. -/
def hasHash (record : String × Value) : Bool :=
  match record.2 with
  | .obj members => !(find_value members "hash").is_null
  | _ => false

/-- The names of the records that the merkle tree covers, in their order. -/
def hashNames (Objlotto : Object) : List String :=
  (Objlotto.filter hasHash).map Prod.fst

theorem hashNames_cons (record : String × Value) (Objlotto : Object) :
    hashNames (record :: Objlotto) =
      if hasHash record then record.1 :: hashNames Objlotto
      else hashNames Objlotto := by
  rw [hashNames, List.filter_cons]
  split_ifs <;> rfl

theorem find_value_cons (record : String × Value) (Objlotto : Object) :
    find_value (record :: Objlotto) name =
      if record.1 = name then record.2 else find_value Objlotto name := by
  rw [find_value, List.find?_cons]
  by_cases same : record.1 = name
  · simp [same]
  · simp [same, find_value]

theorem get_str_eq_ok {value : Value} (read : value.get_str = .ok text) :
    value = .str text := by
  cases value with
  | str other =>
      cases read
      rfl
  | _ => cases read

theorem get_obj_eq_ok {value : Value} (read : value.get_obj = .ok members) :
    value = .obj members := by
  cases value with
  | obj other =>
      cases read
      rfl
  | _ => cases read

/-- The leaves before and after a record is read. -/
theorem recordHashes_cons
    (read : recordHashes (record :: Objlotto) = .ok vhash) :
    ∃ members, record.2 = .obj members ∧
      (hasHash record = false ∧ recordHashes Objlotto = .ok vhash ∨
        hasHash record = true ∧ ∃ text later,
          find_value members "hash" = .str text ∧
            recordHashes Objlotto = .ok later ∧
            vhash = parseHash text :: later) := by
  rw [recordHashes] at read
  rcases bind_eq_ok.mp read with ⟨members, isObject, rest⟩
  have object := get_obj_eq_ok isObject
  refine ⟨members, object, ?_⟩
  rw [hasHash, object]
  dsimp only
  split_ifs at rest with absent
  · exact Or.inl ⟨by rw [absent]; rfl, rest⟩
  · rcases bind_eq_ok.mp rest with ⟨text, isText, rest⟩
    rcases bind_eq_ok.mp rest with ⟨later, isLater, same⟩
    cases same
    refine Or.inr ⟨?_, text, later, get_str_eq_ok isText, isLater, rfl⟩
    rw [Bool.eq_false_iff.mpr absent]
    rfl

theorem length_recordHashes (read : recordHashes Objlotto = .ok vhash) :
    vhash.length = (hashNames Objlotto).length := by
  induction Objlotto generalizing vhash with
  | nil =>
      cases read
      rfl
  | cons record Objlotto inductionHypothesis =>
      rw [hashNames_cons]
      rcases recordHashes_cons read with
        ⟨members, -, ⟨bare, later⟩ | ⟨covered, text, later, -, rest, rfl⟩⟩
      · rw [bare]
        exact inductionHypothesis later
      · rw [covered, if_pos rfl, List.length_cons, List.length_cons,
          inductionHypothesis rest]

/-- The leaf of the record that a name finds. -/
theorem getElem?_recordHashes
    (read : recordHashes Objlotto = .ok vhash)
    (found : find_value Objlotto name = .obj members)
    (isText : find_value members "hash" = .str text) :
    vhash[(hashNames Objlotto).idxOf name]? = some (parseHash text) := by
  induction Objlotto generalizing vhash with
  | nil => cases found
  | cons record Objlotto inductionHypothesis =>
      rw [find_value_cons] at found
      rw [hashNames_cons]
      rcases recordHashes_cons read with
        ⟨own, object, ⟨bare, later⟩ | ⟨covered, ownText, later, isOwn, rest, rfl⟩⟩
      · rw [bare]
        split_ifs at found with same
        · rw [object] at found
          cases found
          rw [hasHash, object] at bare
          simp [isText, Value.is_null] at bare
        · exact inductionHypothesis later found
      · rw [covered, if_pos rfl]
        split_ifs at found with same
        · rw [object] at found
          cases found
          rw [isOwn] at isText
          cases isText
          rw [same, List.idxOf_cons_self]
          rfl
        · rw [List.idxOf_cons_ne _ same, List.getElem?_cons_succ]
          exact inductionHypothesis rest found

/-! ## What the root fixes -/

/-- The leaves of the merkle tree of a file. -/
def leaves (file : CObjectFile) : List Uint256 :=
  match recordHashes file.Objlotto with
  | .ok vhash => vhash
  | .error _ => []

/-- The byte strings that `BuildMerkleTree` hashes. -/
def hashedBytes (hash : List UInt8 → Uint256) (vhash : List Uint256) :
    List (List UInt8) :=
  (hashedPairs (hashPair hash) vhash).map fun pair =>
    writeUint256 pair.1 ++ writeUint256 pair.2

variable {file first second : CObjectFile}

/-- What acceptance says of the file that is read afterwards. -/
theorem getLottoObject_accepts
    (accepted : getLottoObject hash file = .ok (true, first)) :
    recordHashes first.Objlotto = .ok (leaves first) ∧
      buildMerkleTree hash (leaves first) =
        .ok (parseHash file.LotteryDataMerkleHash) := by
  rw [getLottoObject] at accepted
  dsimp only at accepted
  split_ifs at accepted with missing
  · cases accepted
  · rcases bind_eq_ok.mp accepted with ⟨Objlotto, isObject, accepted⟩
    split_ifs at accepted with empty
    · cases accepted
    · rcases bind_eq_ok.mp accepted with ⟨ohash, isHash, accepted⟩
      rcases bind_eq_ok.mp accepted with ⟨merkleHash, isText, accepted⟩
      split_ifs at accepted with other
      · cases accepted
      · rcases bind_eq_ok.mp accepted with ⟨vhash, isLeaves, accepted⟩
        rcases bind_eq_ok.mp accepted with ⟨mhashtmp, isRoot, accepted⟩
        simp only [pure, Except.pure, Except.ok.injEq, Prod.mk.injEq,
          decide_eq_true_eq] at accepted
        rcases accepted with ⟨same, rfl⟩
        rw [leaves]
        dsimp only
        rw [isLeaves]
        refine ⟨rfl, ?_⟩
        rw [isRoot, ← same, not_ne_iff.mp other]

/-- What a successful reading says of the record. -/
theorem readClottoData_reads
    {index : Int32} {passwd : Uint256} {clear : List UInt8}
    (read : readClottoData hash decryptData file index passwd = .ok clear) :
    ∃ members text, find_value file.Objlotto (itostr index) = .obj members ∧
      find_value members "hash" = .str text ∧ parseHash text = hash clear := by
  rw [readClottoData] at read
  split_ifs at read
  rcases bind_eq_ok.mp read with ⟨members, isObject, read⟩
  rcases bind_eq_ok.mp read with ⟨endata, -, read⟩
  rcases bind_eq_ok.mp read with ⟨text, isText, read⟩
  refine ⟨members, text, get_obj_eq_ok isObject, get_str_eq_ok isText, ?_⟩
  split at read
  · cases read
  · split_ifs at read with same
    exact (Except.ok.inj read) ▸ not_ne_iff.mp same

theorem injOn_hashPair
    {free : Set (List UInt8)} (injective : Set.InjOn hash free) :
    Set.InjOn (fun pair : Uint256 × Uint256 => hashPair hash pair.1 pair.2)
      {pair | writeUint256 pair.1 ++ writeUint256 pair.2 ∈ free} := by
  intro pair inside other otherInside same
  have bytes := injective inside otherInside same
  rcases selfDelimiting_writeUint256 _ _ _ _ bytes with ⟨left, right⟩
  exact Prod.ext left (selfDelimiting_writeUint256.injective right)

/-- Files with equally many leaves and one root have the same leaves. -/
theorem eq_of_buildMerkleTree
    {free : Set (List UInt8)} (injective : Set.InjOn hash free)
    (inside : ∀ bytes ∈ hashedBytes hash vhash, bytes ∈ free)
    (otherInside : ∀ bytes ∈ hashedBytes hash otherHashes, bytes ∈ free)
    (few : vhash.length < 2 ^ 31) (length : vhash.length = otherHashes.length)
    (built : buildMerkleTree hash vhash = .ok root)
    (otherBuilt : buildMerkleTree hash otherHashes = .ok root) :
    vhash = otherHashes := by
  by_cases empty : vhash = []
  · rw [empty] at length ⊢
    exact (List.length_eq_zero_iff.mp length.symm).symm
  · have otherSome : otherHashes ≠ [] := by
      rintro rfl
      exact empty (List.length_eq_zero_iff.mp length)
    have otherFew : otherHashes.length < 2 ^ 31 := length ▸ few
    rcases Merkle.exists_root (hashPair hash) empty with ⟨top, isRoot⟩
    rcases Merkle.exists_root (hashPair hash) otherSome with
      ⟨otherTop, otherIsRoot⟩
    rw [buildMerkleTree, buildMerkleTree_eq few isRoot] at built
    rw [buildMerkleTree, buildMerkleTree_eq otherFew otherIsRoot] at otherBuilt
    cases built
    cases otherBuilt
    refine Merkle.eq_of_row_eq_of_length (injOn_hashPair injective) length
      (Merkle.rootHeight vhash.length) ?_ ?_ ?_
    · intro height below pair member
      exact inside _
        (List.mem_map_of_mem (mem_hashedPairs few below member))
    · intro height below pair member
      rw [length] at below
      exact otherInside _
        (List.mem_map_of_mem (mem_hashedPairs otherFew below member))
    · rw [isRoot, length, otherIsRoot]

/--
Two accepted files with equally many hashes, in which the record of an index
stands at one position among the records with a hash, give one clear text.
-/
theorem readClottoData_eq
    {file otherFile : CObjectFile} {index : Int32} {passwd : Uint256}
    {clear otherClear : List UInt8}
    (accepted : getLottoObject hash file = .ok (true, first))
    (otherAccepted : getLottoObject hash otherFile = .ok (true, second))
    (sameRoot : file.LotteryDataMerkleHash = otherFile.LotteryDataMerkleHash)
    (read : readClottoData hash decryptData first index passwd = .ok clear)
    (otherRead :
      readClottoData hash decryptData second index passwd = .ok otherClear)
    (injective :
      Set.InjOn hash
        {bytes | bytes ∈ hashedBytes hash (leaves first) ++
          hashedBytes hash (leaves second) ++ [clear, otherClear]})
    (few : (hashNames first.Objlotto).length < 2 ^ 31)
    (count :
      (hashNames first.Objlotto).length = (hashNames second.Objlotto).length)
    (position :
      (hashNames first.Objlotto).idxOf (itostr index) =
        (hashNames second.Objlotto).idxOf (itostr index)) :
    clear = otherClear := by
  rcases getLottoObject_accepts accepted with ⟨hashes, built⟩
  rcases getLottoObject_accepts otherAccepted with ⟨otherHashes, otherBuilt⟩
  rw [← length_recordHashes hashes] at few count
  rw [← length_recordHashes otherHashes] at count
  have sameLeaves : leaves first = leaves second := by
    refine eq_of_buildMerkleTree injective ?_ ?_ few count built
      (sameRoot ▸ otherBuilt)
    · intro bytes member
      exact List.mem_append_left _ (List.mem_append_left _ member)
    · intro bytes member
      exact List.mem_append_left _ (List.mem_append_right _ member)
  rcases readClottoData_reads read with ⟨members, text, found, isText, isHash⟩
  rcases readClottoData_reads otherRead with
    ⟨otherMembers, otherText, otherFound, otherIsText, otherIsHash⟩
  have leaf := getElem?_recordHashes hashes found isText
  have otherLeaf := getElem?_recordHashes otherHashes otherFound otherIsText
  rw [sameLeaves, position, otherLeaf] at leaf
  have sameHash : hash clear = hash otherClear :=
    isHash.symm.trans ((Option.some.inj leaf).symm.trans otherIsHash)
  refine injective ?_ ?_ sameHash
  · exact List.mem_append_right _ List.mem_cons_self
  · exact List.mem_append_right _ (List.mem_cons_of_mem _ List.mem_cons_self)

/-! ## Files that disagree -/

theorem getLottoObject_of_root
    {ohash : Object}
    (data : find_value file.Objmain "lottorydata" = .obj Objlotto)
    (isHash : find_value Objlotto "MerkleHash" = .obj ohash)
    (isText :
      find_value ohash "MerkleHash" = .str file.LotteryDataMerkleHash)
    (hashes : recordHashes Objlotto = .ok vhash)
    (built :
      buildMerkleTree hash vhash =
        .ok (parseHash file.LotteryDataMerkleHash)) :
    getLottoObject hash file = .ok (true, { file with Objlotto := Objlotto }) := by
  have some : Objlotto.isEmpty = false := by
    cases Objlotto with
    | nil => cases isHash
    | cons => rfl
  rw [getLottoObject, data]
  simp [Value.is_null, Value.get_obj, Value.get_str, some, isHash, isText,
    hashes, built, bind, Except.bind, pure, Except.pure]

/--
Two accepted files with one root that give different clear texts, while no
two of the byte strings that were hashed collide.
-/
def Disagree (hash : List UInt8 → Uint256)
    (decryptData : List UInt8 → List UInt8 → Option (List UInt8))
    (file otherFile : CObjectFile) (index : Int32) (passwd : Uint256) : Prop :=
  ∃ first second clear otherClear,
    getLottoObject hash file = .ok (true, first) ∧
    getLottoObject hash otherFile = .ok (true, second) ∧
    file.LotteryDataMerkleHash = otherFile.LotteryDataMerkleHash ∧
    readClottoData hash decryptData first index passwd = .ok clear ∧
    readClottoData hash decryptData second index passwd = .ok otherClear ∧
    Set.InjOn hash
      {bytes | bytes ∈ hashedBytes hash (leaves first) ++
        hashedBytes hash (leaves second) ++ [clear, otherClear]} ∧
    clear ≠ otherClear

/-- The two leaves that the tree of the example hashes. -/
def twoLeaves : List UInt8 := writeUint256 1 ++ writeUint256 2

/-- A hash of short byte strings and of the two leaves. -/
def shortHash (bytes : List UInt8) : Uint256 :=
  if bytes.length = 64 then 7 else BitVec.ofNat 256 (leValue bytes)

/-- A cipher whose ciphertexts are the clear texts, one of them abbreviated. -/
def plainData (_ vInput : List UInt8) : Option (List UInt8) :=
  some (if vInput = [7] then twoLeaves else vInput)

/-- The hexadecimal digits of a hash with one byte. -/
def hexHash (digits : String) : String :=
  digits ++ "00000000000000000000000000000000000000000000000000000000000000"

def dataRecord (name digits : String) : String × Value :=
  (name, .obj [("endata", .str digits), ("hash", .str (hexHash digits))])

/-- A file whose built-in root is 7. -/
def dataFile (records : Object) : CObjectFile where
  LotteryDataMerkleHash := hexHash "07"
  Objmain :=
    [("lottorydata", .obj
      (records ++ [("MerkleHash", .obj [("MerkleHash", .str (hexHash "07"))])]))]
  Objlotto := []

/-- The object that is read from such a file. -/
def dataObject (records : Object) : Object :=
  records ++ [("MerkleHash", .obj [("MerkleHash", .str (hexHash "07"))])]

theorem recordHashes_dataObject
    {records : Object} (hashes : recordHashes records = .ok vhash) :
    recordHashes (dataObject records) = .ok vhash := by
  induction records generalizing vhash with
  | nil =>
      cases hashes
      rfl
  | cons record records inductionHypothesis =>
      rw [recordHashes] at hashes
      rcases bind_eq_ok.mp hashes with ⟨members, isObject, hashes⟩
      rw [dataObject, List.cons_append, recordHashes, isObject]
      rw [dataObject] at inductionHypothesis
      refine bind_eq_ok.mpr ⟨members, rfl, ?_⟩
      split_ifs at hashes ⊢ with absent
      · exact inductionHypothesis hashes
      · rcases bind_eq_ok.mp hashes with ⟨text, isText, hashes⟩
        rcases bind_eq_ok.mp hashes with ⟨later, isLater, same⟩
        refine bind_eq_ok.mpr ⟨text, isText, ?_⟩
        exact bind_eq_ok.mpr ⟨later, inductionHypothesis isLater, same⟩

/-- A file with root 7 in which no record is named as the root is. -/
theorem getLottoObject_dataFile
    {records : Object} (hashes : recordHashes records = .ok vhash)
    (built : buildMerkleTree hash vhash = .ok 7)
    (unnamed : ∀ record ∈ records, record.1 ≠ "MerkleHash") :
    getLottoObject hash (dataFile records) =
      .ok (true, { dataFile records with Objlotto := dataObject records }) := by
  have isText :
      find_value [("MerkleHash", .str (hexHash "07"))] "MerkleHash" =
        .str (dataFile records).LotteryDataMerkleHash := rfl
  refine getLottoObject_of_root rfl ?_ isText (recordHashes_dataObject hashes) ?_
  · rw [find_value, dataObject, List.find?_append, List.find?_eq_none.mpr]
    · rfl
    · intro record member
      simpa using unnamed record member
  · rw [built]
    have isRoot : parseHash (hexHash "07") = 7 := by decide
    exact congrArg Except.ok isRoot.symm

theorem injOn_shortHash :
    Set.InjOn shortHash {bytes | bytes ∈ [twoLeaves, [1], [2]]} := by
  have distinct : ([twoLeaves, [1], [2]].map shortHash).Nodup := by
    decide
  exact fun _ member _ otherMember same =>
    List.inj_on_of_nodup_map distinct member otherMember same

theorem disagree_dataFile
    {records others : Object} {clear otherClear : List UInt8}
    (hashes : recordHashes records = .ok vhash)
    (otherHashed : recordHashes others = .ok otherHashes)
    (built : buildMerkleTree shortHash vhash = .ok 7)
    (otherBuilt : buildMerkleTree shortHash otherHashes = .ok 7)
    (unnamed : ∀ record ∈ records ++ others, record.1 ≠ "MerkleHash")
    (read :
      readClottoData shortHash plainData
        { dataFile records with Objlotto := dataObject records } 0 0 =
          .ok clear)
    (otherRead :
      readClottoData shortHash plainData
        { dataFile others with Objlotto := dataObject others } 0 0 =
          .ok otherClear)
    (inside :
      ∀ bytes ∈ hashedBytes shortHash vhash ++
        hashedBytes shortHash otherHashes ++ [clear, otherClear],
        bytes ∈ [twoLeaves, [1], [2]])
    (differ : clear ≠ otherClear) :
    Disagree shortHash plainData (dataFile records) (dataFile others) 0 0 := by
  refine ⟨_, _, clear, otherClear,
    getLottoObject_dataFile hashes built fun record member =>
      unnamed record (List.mem_append_left _ member),
    getLottoObject_dataFile otherHashed otherBuilt fun record member =>
      unnamed record (List.mem_append_right _ member),
    rfl, read, otherRead, injOn_shortHash.mono ?_, differ⟩
  intro bytes member
  rw [Set.mem_ofPred_eq, leaves, leaves] at member
  dsimp only at member
  rw [recordHashes_dataObject hashes, recordHashes_dataObject otherHashed] at member
  exact inside bytes member

theorem buildMerkleTree_short {vhash : List Uint256}
    (few : vhash.length < 2 ^ 31)
    (isRoot :
      Merkle.row (hashPair hash) vhash (Merkle.rootHeight vhash.length) =
        [root]) :
    buildMerkleTree hash vhash = .ok root := by
  rw [buildMerkleTree, buildMerkleTree_eq few isRoot]
  rfl

theorem hashedBytes_twoLeaves :
    hashedBytes shortHash [1, 2] = [twoLeaves] := by
  rw [hashedBytes, hashedPairs, intSize_of_lt (by decide), hashedRows]
  simp [Merkle.pairs, hashedRows, twoLeaves]

theorem hashedBytes_singleton (leaf : Uint256) :
    hashedBytes shortHash [leaf] = [] := by
  rw [hashedBytes, hashedPairs, intSize_of_lt (by simp), hashedRows]
  simp

/-- With `2 ^ 31` leaves no row is built. -/
theorem buildMerkleTree_negative
    {vhash : List Uint256} (many : vhash.length = 2 ^ 31)
    (last : vhash.getLast? = some root) :
    buildMerkleTree hash vhash = .ok root ∧ hashedBytes hash vhash = [] := by
  constructor
  · rw [buildMerkleTree, Merkle.BlockTree.buildMerkleTree,
      fillMerkleTree_negative many]
    simp only [bind, Except.bind, last, Option.getD_some]
    rfl
  · have size : intSize vhash.length = 0 := by
      rw [many]
      decide
    rw [hashedBytes, hashedPairs, size, hashedRows, if_neg (by decide)]
    rfl

theorem recordHashes_replicate (count : Nat) :
    recordHashes (List.replicate count (dataRecord "1" "07")) =
      .ok (List.replicate count 7) := by
  induction count with
  | zero => rfl
  | succ count inductionHypothesis =>
      have leaf : parseHash (hexHash "07") = 7 := by decide
      rw [List.replicate_succ, List.replicate_succ, recordHashes,
        inductionHypothesis, ← leaf]
      rfl

/-- A first record before many of one hash. -/
theorem recordHashes_many
    {digits : String} {leaf : Uint256} (isLeaf : parseHash (hexHash digits) = leaf)
    (count : Nat) :
    recordHashes
        (dataRecord "0" digits :: List.replicate count (dataRecord "1" "07")) =
      .ok (leaf :: List.replicate count 7) := by
  rw [recordHashes, recordHashes_replicate, ← isLeaf]
  rfl

/-- Only the first record is read when it has the name. -/
theorem readClottoData_first
    {digits : String} {rest : Object}
    (first : file.Objlotto = dataRecord "0" digits :: rest) :
    readClottoData hash decryptData file 0 0 =
      readClottoData hash decryptData ⟨"", [], [dataRecord "0" digits]⟩ 0 0 := by
  have named : (dataRecord "0" digits).1 = itostr 0 :=
    show "0" = itostr 0 by decide
  rw [readClottoData, readClottoData, first, find_value_cons, find_value_cons,
    if_pos named, if_pos named]

/--
The root fixes neither the names of the records, nor whether a hash is a leaf,
nor anything but the last of `2 ^ 31` hashes.
-/
theorem not_bound :
    Disagree shortHash plainData
      (dataFile [dataRecord "0" "01", dataRecord "1" "02"])
      (dataFile [dataRecord "1" "01", dataRecord "0" "02"]) 0 0 ∧
    Disagree shortHash plainData
      (dataFile [dataRecord "0" "07"])
      (dataFile [dataRecord "0" "01", dataRecord "1" "02"]) 0 0 ∧
    Disagree shortHash plainData
      (dataFile
        (dataRecord "0" "01" :: List.replicate (2 ^ 31 - 1) (dataRecord "1" "07")))
      (dataFile
        (dataRecord "0" "02" :: List.replicate (2 ^ 31 - 1) (dataRecord "1" "07")))
      0 0 := by
  have tree : buildMerkleTree shortHash [1, 2] = .ok 7 :=
    buildMerkleTree_short (by decide) (by decide)
  have leaf : buildMerkleTree shortHash [7] = .ok 7 :=
    buildMerkleTree_short (by decide) (by decide)
  refine ⟨?_, ?_, ?_⟩
  · refine @disagree_dataFile _ _ _ _ [1] [2] (by decide)
      (by decide) tree tree (by decide) (by decide)
      (by decide) ?_ (by decide)
    rw [hashedBytes_twoLeaves]
    decide
  · refine @disagree_dataFile _ _ _ _ twoLeaves [1] (by decide)
      (by decide) leaf tree (by decide) (by decide)
      (by decide) ?_ (by decide)
    rw [hashedBytes_twoLeaves, hashedBytes_singleton]
    decide
  · have many : ∀ first : Uint256,
        (first :: List.replicate (2 ^ 31 - 1) 7).length = 2 ^ 31 := by
      intro first
      rw [List.length_cons, List.length_replicate, Nat.sub_add_cancel (by decide)]
    have last : ∀ first : Uint256,
        (first :: List.replicate (2 ^ 31 - 1) 7).getLast? = some 7 := by
      intro first
      rw [List.getLast?_cons, List.getLast?_replicate, if_neg (by decide)]
      rfl
    have one := @buildMerkleTree_negative shortHash _ _ (many 1) (last 1)
    have two := @buildMerkleTree_negative shortHash _ _ (many 2) (last 2)
    refine @disagree_dataFile _ _ _ _ [1] [2]
      (recordHashes_many (by decide) _)
      (recordHashes_many (by decide) _) one.1 two.1 ?_ ?_ ?_ ?_
      (by decide)
    · intro record member
      simp only [List.mem_append, List.mem_cons, List.mem_replicate] at member
      rcases member with (rfl | ⟨-, rfl⟩) | rfl | ⟨-, rfl⟩ <;> decide
    · rw [readClottoData_first rfl]
      decide
    · rw [readClottoData_first rfl]
      decide
    · rw [one.2, two.2]
      decide

/-- The first of the records with its members in another order. -/
def otherRecord : String × Value :=
  ("0", .obj [("hash", .str (hexHash "01")), ("endata", .str " 01")])

theorem readClottoData_eq_otherRecord :
    ∃ first second clear otherClear,
      getLottoObject shortHash
          (dataFile [dataRecord "0" "01", dataRecord "1" "02"]) =
        .ok (true, first) ∧
      getLottoObject shortHash (dataFile [otherRecord, dataRecord "1" "02"]) =
        .ok (true, second) ∧
      readClottoData shortHash plainData first 0 0 = .ok clear ∧
      readClottoData shortHash plainData second 0 0 = .ok otherClear ∧
      clear = otherClear := by
  have tree : buildMerkleTree shortHash [1, 2] = .ok 7 :=
    buildMerkleTree_short (by decide) (by decide)
  have hashes : recordHashes [dataRecord "0" "01", dataRecord "1" "02"] =
      .ok [1, 2] := by decide
  have otherHashes : recordHashes [otherRecord, dataRecord "1" "02"] =
      .ok [1, 2] := by decide
  have accepted := getLottoObject_dataFile hashes tree (by decide)
  have otherAccepted := getLottoObject_dataFile otherHashes tree (by decide)
  have read : readClottoData shortHash plainData
      { dataFile [dataRecord "0" "01", dataRecord "1" "02"] with
        Objlotto := dataObject [dataRecord "0" "01", dataRecord "1" "02"] }
      0 0 = .ok [1] := by decide
  have otherRead : readClottoData shortHash plainData
      { dataFile [otherRecord, dataRecord "1" "02"] with
        Objlotto := dataObject [otherRecord, dataRecord "1" "02"] }
      0 0 = .ok [1] := by decide
  refine ⟨_, _, [1], [1], accepted, otherAccepted, read, otherRead, ?_⟩
  refine readClottoData_eq accepted otherAccepted rfl read otherRead ?_
    (by decide) (by decide) (by decide)
  refine injOn_shortHash.mono ?_
  intro bytes member
  rw [Set.mem_ofPred_eq, leaves, leaves] at member
  dsimp only at member
  rw [recordHashes_dataObject hashes, recordHashes_dataObject otherHashes] at member
  dsimp only at member
  rw [hashedBytes_twoLeaves] at member
  simp at member ⊢
  tauto

end DSValue.Lotto.ObjectFile
