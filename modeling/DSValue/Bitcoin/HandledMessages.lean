import DSValue.Bitcoin.ParseMessage

/-!
# What the loop does with one message of a Bitcoin peer

Sending leaves the handshake and the headers that were handed over alone, hence
a message that is taken counts by its command only.  The loop sticks at a
message when it throws there, or when it stops at a complete message with room
in the send buffer and the connection kept.  These are the messages of `Jams`:
a `version` message after the handshake, a payload that its branch cannot
decode, and headers on which `AddBitcoinHeader` throws.
-/

namespace DSValue.Bitcoin.HandledMessages

open DSValue.Lib
open DSValue.Lib.Drain
open DSValue.Lib.Stream
open DSValue.Core.Serialize
open DSValue.Core.Deserialize
open DSValue.Bitcoin.MessageFraming
open DSValue.Bitcoin.PeerMessages
open DSValue.Bitcoin.ParseMessage

variable {Chain AddrMan Failure : Type} {Hash : List UInt8 → Uint256}
  {env : Environment Chain AddrMan Failure} {state next : State Chain AddrMan}
  {msg last : QueuedMessage}

/-! ## Sending -/

/-- Neither the handshake nor what was handed over is touched. -/
structure Keeps (state next : State Chain AddrMan) : Prop where
  nVersion : next.node.nVersion = state.node.nVersion
  handed : next.handed = state.handed

theorem Keeps.refl (state : State Chain AddrMan) : Keeps state state :=
  ⟨rfl, rfl⟩

theorem Keeps.trans
    {later : State Chain AddrMan} (first : Keeps state next)
    (second : Keeps next later) : Keeps state later :=
  ⟨second.nVersion.trans first.nVersion, second.handed.trans first.handed⟩

theorem socketSendData_nVersion
    (node : CBitcoinNode) (sends : List SendResult)
    (vSendMsg : List (List UInt8)) :
    (socketSendData node sends vSendMsg).1.nVersion = node.nVersion := by
  induction vSendMsg generalizing node sends with
  | nil => rfl
  | cons data later inductionHypothesis =>
      unfold socketSendData
      dsimp only
      split_ifs
      · rfl
      · split
        · rfl
        · rfl
        · rfl
        · split_ifs
          · exact inductionHypothesis _ _
          · rfl

theorem keeps_pushMessage
    (pszCommand payload : List UInt8) (state : State Chain AddrMan) :
    Keeps state (pushMessage Hash pszCommand payload state) := by
  rw [pushMessage]
  dsimp only
  split_ifs
  · exact ⟨socketSendData_nVersion _ _ _, rfl⟩
  · exact ⟨rfl, rfl⟩

theorem keeps_pushGetHeaders
    (hashEnd : Uint256) (state : State Chain AddrMan) :
    Keeps state (pushGetHeaders Hash env hashEnd state) := by
  rw [pushGetHeaders]
  dsimp only
  split
  · refine ⟨?_, ?_⟩
    · exact (keeps_pushMessage GETHEADERS _ state).nVersion
    · exact (keeps_pushMessage GETHEADERS _ state).handed
  · exact .refl state

theorem keeps_askForBlocks (vInv : List CInv) (state : State Chain AddrMan) :
    Keeps state (vInv.foldl (askForBlock Hash env) state) := by
  induction vInv generalizing state with
  | nil => exact .refl state
  | cons inv vInv inductionHypothesis =>
      refine .trans ?_ (inductionHypothesis _)
      rw [askForBlock]
      split_ifs
      · exact keeps_pushGetHeaders inv.hash state
      · exact .refl state

theorem keeps_nodeConnected (state : State Chain AddrMan) :
    Keeps state (nodeConnected env state) := by
  rw [nodeConnected]
  split_ifs
  · exact ⟨rfl, rfl⟩
  · exact .refl state

theorem keeps_answerVersion (state : State Chain AddrMan) :
    Keeps state (answerVersion Hash env state) := by
  have pushed := @keeps_pushMessage _ _ Hash VERACK [] state
  rw [answerVersion]
  refine .trans ?_ (keeps_nodeConnected _)
  dsimp only
  split_ifs
  · refine ⟨?_, ?_⟩
    · exact (keeps_pushMessage GETADDR [] _).nVersion.trans pushed.nVersion
    · exact (keeps_pushMessage GETADDR [] _).handed.trans pushed.handed
  · exact ⟨pushed.nVersion, pushed.handed⟩

/-! ## The messages that are taken -/

/-- A `version` message that is not passed over. -/
def handshake (Hash : List UInt8 → Uint256) (msg : CBitcoinNetMessage) : Bool :=
  accepted Hash msg ∧ getCommand msg.hdr = VERSION

/-- The headers of a well-formed `headers` message. -/
def headersOf (Hash : List UInt8 → Uint256) (msg : CBitcoinNetMessage) :
    Option (List CBitcoinBlock) :=
  if accepted Hash msg ∧ getCommand msg.hdr = HEADERS then
    match readVector readBlock msg.vRecv with
    | .error _ => none
    | .ok (vHeaders, _) => some vHeaders
  else none

/-- The headers of the messages behind the first `version` message. -/
def headersAfterHandshake (Hash : List UInt8 → Uint256)
    (msgs : List CBitcoinNetMessage) : List (List CBitcoinBlock) :=
  (msgs.dropWhile fun msg => !handshake Hash msg).filterMap (headersOf Hash)

/-- What taking a message does to the handshake and to the headers. -/
structure TakenStep (Hash : List UInt8 → Uint256)
    (state : State Chain AddrMan) (msg : QueuedMessage)
    (next : State Chain AddrMan) : Prop where
  nVersion :
    next.node.nVersion = 0 ↔ state.node.nVersion = 0 ∧
      handshake Hash msg.toCBitcoinNetMessage = false
  handed :
    next.handed = state.handed ++
      if state.node.nVersion = 0 then []
      else (headersOf Hash msg.toCBitcoinNetMessage).toList

theorem Keeps.takenStep
    (keeps : Keeps state next)
    (noVersion : handshake Hash msg.toCBitcoinNetMessage = false)
    (noHeaders : state.node.nVersion ≠ 0 →
      headersOf Hash msg.toCBitcoinNetMessage = none) :
    TakenStep Hash state msg next := by
  constructor
  · rw [keeps.nVersion, noVersion]
    simp
  · rw [keeps.handed]
    split_ifs with fresh
    · rw [List.append_nil]
    · rw [noHeaders fresh, Option.toList_none, List.append_nil]

theorem receiveVersion_take
    (taken : receiveVersion Hash env state msg = .take next) :
    state.node.nVersion = 0 ∧ next.node.nVersion ≠ 0 ∧
      next.handed = state.handed := by
  rw [receiveVersion] at taken
  split_ifs at taken with negotiated
  split at taken
  · cases taken
  next front vRecv _ =>
    dsimp only at taken
    split_ifs at taken with old
    split at taken
    · cases taken
    next back _ _ =>
      cases taken
      have kept := @keeps_answerVersion _ _ _ Hash env
        { state with node := setVersion state.node front back }
      refine ⟨not_not.mp negotiated, ?_, kept.handed⟩
      rw [kept.nVersion]
      show (if front.nVersion = 10300 then (300 : Int32) else front.nVersion) ≠ 0
      split_ifs with renamed
      · decide
      · rintro zero
        rw [zero] at old
        exact old (by decide)

theorem receiveHeaders_take
    (taken : receiveHeaders env state msg = .take next) :
    ∃ vHeaders rest, readVector readBlock msg.vRecv = .ok (vHeaders, rest) ∧
      next.node.nVersion = state.node.nVersion ∧
      next.handed = state.handed ++ [vHeaders] := by
  rw [receiveHeaders] at taken
  split at taken
  · cases taken
  next vHeaders rest decoded =>
    split at taken
    · cases taken
    next chain _ =>
      cases taken
      have kept := @keeps_nodeConnected _ _ _ env
        { state with chain := chain, handed := state.handed ++ [vHeaders] }
      exact ⟨vHeaders, rest, decoded, kept.nVersion, kept.handed⟩

theorem receiveAddr_take
    (taken : receiveAddr env state msg = .take next) : Keeps state next := by
  rw [receiveAddr] at taken
  split at taken
  · cases taken
  · dsimp only at taken
    split_ifs at taken <;> cases taken
    · exact .refl state
    · refine .trans ?_ (keeps_nodeConnected _)
      exact ⟨rfl, rfl⟩
    · refine .trans ?_ (keeps_nodeConnected _)
      exact ⟨rfl, rfl⟩

theorem receiveInv_take
    (taken : receiveInv Hash env state msg = .take next) :
    Keeps state next := by
  rw [receiveInv] at taken
  split at taken
  · cases taken
  · split_ifs at taken <;> cases taken
    · exact .refl state
    · exact (keeps_askForBlocks _ state).trans (keeps_nodeConnected _)

theorem receivePing_take
    (taken : (receivePing Hash state msg :
      Handled Chain AddrMan Failure) = .take next) : Keeps state next := by
  rw [receivePing] at taken
  split_ifs at taken
  · split at taken <;> cases taken
    exact keeps_pushMessage _ _ state
  · cases taken
    exact .refl state

theorem headersOf_eq_none
    (other : getCommand msg.hdr ≠ HEADERS) :
    headersOf Hash msg.toCBitcoinNetMessage = none :=
  if_neg fun isHeaders => other isHeaders.2

theorem handshake_eq_false
    (other : getCommand msg.hdr ≠ VERSION) :
    handshake Hash msg.toCBitcoinNetMessage = false :=
  decide_eq_false fun isVersion => other isVersion.2

/-- A message whose command does not hand headers over. -/
theorem Keeps.takenStep_other
    (keeps : Keeps state next) (noVersion : getCommand msg.hdr ≠ VERSION)
    (noHeaders : getCommand msg.hdr ≠ HEADERS) : TakenStep Hash state msg next :=
  keeps.takenStep (handshake_eq_false noVersion)
    fun _ => headersOf_eq_none noHeaders

theorem processMessage_take
    (valid : accepted Hash msg.toCBitcoinNetMessage = true)
    (taken : processMessage Hash env state msg = .take next) :
    TakenStep Hash state msg next := by
  rw [processMessage] at taken
  dsimp only at taken
  split_ifs at taken with version fresh verack headers addr inv ping
  · rcases receiveVersion_take taken with ⟨fresh, negotiated, handed⟩
    have isHandshake : handshake Hash msg.toCBitcoinNetMessage = true :=
      decide_eq_true ⟨valid, version⟩
    constructor
    · rw [isHandshake]
      simp [negotiated]
    · rw [handed, if_pos fresh, List.append_nil]
  · cases taken
    exact (Keeps.refl state).takenStep (handshake_eq_false version)
      fun negotiated => absurd fresh negotiated
  · cases taken
    refine Keeps.takenStep_other ⟨rfl, rfl⟩ version ?_
    rw [verack]
    decide
  · rcases receiveHeaders_take taken with
      ⟨vHeaders, rest, decoded, nVersion, handed⟩
    constructor
    · rw [nVersion, handshake_eq_false version]
      simp
    · rw [handed, if_neg fresh, headersOf, if_pos ⟨valid, headers⟩, decoded]
      rfl
  · exact (receiveAddr_take taken).takenStep_other version headers
  · exact (receiveInv_take taken).takenStep_other version headers
  · exact (receivePing_take taken).takenStep_other version headers
  · cases taken
    exact (Keeps.refl state).takenStep_other version headers

/-- A message that is taken is complete, and counts by its command. -/
theorem handleMessage_take
    (taken : handleMessage Hash env state msg = .take next) :
    msg.complete = true ∧ TakenStep Hash state msg next := by
  rw [handleMessage] at taken
  split_ifs at taken with full partly passed
  · cases taken
    have invalid : ¬ accepted Hash msg.toCBitcoinNetMessage = true := by
      rw [passed]
      exact Bool.false_ne_true
    exact ⟨Bool.eq_true_of_not_eq_false partly, (Keeps.refl state).takenStep
      (decide_eq_false fun isVersion => invalid isVersion.1)
      fun _ => if_neg fun isHeaders => invalid isHeaders.1⟩
  · exact ⟨Bool.eq_true_of_not_eq_false partly,
      processMessage_take (Bool.eq_true_of_not_eq_false passed) taken⟩

/-! ## The messages that the loop stops at -/

theorem processMessage_stop
    (stopped : processMessage Hash env state msg = .stop next last) :
    (next = state ∧ last = msg ∧ getCommand msg.hdr = VERSION ∧
        state.node.nVersion ≠ 0) ∨
      next.node.fDisconnect = true ∧ last.complete = msg.complete := by
  rw [processMessage] at stopped
  dsimp only at stopped
  split_ifs at stopped with version fresh verack headers addr inv ping
  · rw [receiveVersion] at stopped
    split_ifs at stopped with negotiated
    · cases stopped
      exact Or.inl ⟨rfl, rfl, version, negotiated⟩
    · split at stopped
      · cases stopped
      · dsimp only at stopped
        split_ifs at stopped with old
        · cases stopped
          exact Or.inr ⟨rfl, rfl⟩
        · split at stopped <;> cases stopped
  · rw [receiveHeaders] at stopped
    split at stopped
    · cases stopped
    · split at stopped <;> cases stopped
  · rw [receiveAddr] at stopped
    split at stopped
    · cases stopped
    · dsimp only at stopped
      split_ifs at stopped
  · rw [receiveInv] at stopped
    split at stopped
    · cases stopped
    · split_ifs at stopped
  · rw [receivePing] at stopped
    split_ifs at stopped
    · split at stopped <;> cases stopped

/-- The loop stops at a message as it is, or it drops the connection. -/
theorem handleMessage_stop
    (stopped : handleMessage Hash env state msg = .stop next last) :
    next = state ∧ last = msg ∨
      next.node.fDisconnect = true ∧ last.complete = msg.complete := by
  rw [handleMessage] at stopped
  split_ifs at stopped
  · cases stopped
    exact Or.inl ⟨rfl, rfl⟩
  · cases stopped
    exact Or.inl ⟨rfl, rfl⟩
  · rcases processMessage_stop stopped with ⟨same, left, -⟩ | dropped
    · exact Or.inl ⟨same, left⟩
    · exact Or.inr dropped

/-! ## Messages that jam the queue -/

/-- The loop comes to the command of a message. -/
structure Considered (Hash : List UInt8 → Uint256)
    (env : Environment Chain AddrMan Failure) (state : State Chain AddrMan)
    (msg : QueuedMessage) : Prop where
  room : state.node.nSendSize < env.sendBufferSize
  complete : msg.complete = true
  accepted : accepted Hash msg.toCBitcoinNetMessage = true

/-- All that is read of a `version` message. -/
def readVersion (streamVersion : Int32) :
    Reader (VersionFront × Option VersionBack) := do
  let front ← readVersionFront streamVersion
  if front.nVersion < BITCOIN_MIN_PEER_PROTO_VERSION then pure (front, none)
  else do
    let back ← readVersionBack streamVersion
    pure (front, some back)

/-- The branch of the command cannot decode the payload. -/
inductive Undecodable (nVersion : Int32) (msg : QueuedMessage) : Prop where
  | version (failure : StreamError) (isVersion : getCommand msg.hdr = VERSION)
      (fresh : nVersion = 0)
      (failed : readVersion msg.streamVersion msg.vRecv = .error failure)
  | headers (failure : StreamError) (isHeaders : getCommand msg.hdr = HEADERS)
      (negotiated : nVersion ≠ 0)
      (failed : readVector readBlock msg.vRecv = .error failure)
  | addr (failure : StreamError) (isAddr : getCommand msg.hdr = ADDR)
      (negotiated : nVersion ≠ 0)
      (failed : readVector (readAddress msg.streamVersion) msg.vRecv =
        .error failure)
  | inv (failure : StreamError) (isInv : getCommand msg.hdr = INV)
      (negotiated : nVersion ≠ 0)
      (failed : readVector readInv msg.vRecv = .error failure)
  | ping (failure : StreamError) (isPing : getCommand msg.hdr = PING)
      (pongs : BIP0031_VERSION < nVersion)
      (failed : readLittleEndian 8 msg.vRecv = .error failure)

/--
The message is a second `version` message, or its payload cannot be decoded, or
`AddBitcoinHeader` throws on its headers.
-/
inductive Jams (Hash : List UInt8 → Uint256)
    (env : Environment Chain AddrMan Failure) (state : State Chain AddrMan)
    (msg : QueuedMessage) : Prop where
  | secondVersion (considered : Considered Hash env state msg)
      (isVersion : getCommand msg.hdr = VERSION)
      (negotiated : state.node.nVersion ≠ 0)
      (connected : state.node.fDisconnect = false)
  | undecodable (considered : Considered Hash env state msg)
      (undecodable : Undecodable state.node.nVersion msg)
  | thrown (vHeaders : List CBitcoinBlock) (rest : List UInt8)
      (failure : Failure) (considered : Considered Hash env state msg)
      (isHeaders : getCommand msg.hdr = HEADERS)
      (negotiated : state.node.nVersion ≠ 0)
      (decoded : readVector readBlock msg.vRecv = .ok (vHeaders, rest))
      (threw : env.addBitcoinHeader state.chain vHeaders = .error failure)

/-- The send buffer is full, or the connection is dropped. -/
def Excused (env : Environment Chain AddrMan Failure)
    (state : State Chain AddrMan) : Prop :=
  env.sendBufferSize ≤ state.node.nSendSize ∨ state.node.fDisconnect = true

theorem handleMessage_considered (considered : Considered Hash env state msg) :
    handleMessage Hash env state msg = processMessage Hash env state msg := by
  rw [handleMessage, if_neg (not_le.mpr considered.room),
    if_neg (by simp [considered.complete]),
    if_neg (by simp [considered.accepted])]

theorem receiveVersion_fail
    {exception : Exception Failure}
    (failed : receiveVersion Hash env state msg = .fail exception) :
    state.node.nVersion = 0 ∧ ∃ failure,
      readVersion msg.streamVersion msg.vRecv = .error failure := by
  rw [receiveVersion] at failed
  split_ifs at failed with negotiated
  refine ⟨not_not.mp negotiated, ?_⟩
  rw [readVersion]
  split at failed
  next failure front => exact ⟨failure, bind_of_error front⟩
  next front vRecv first =>
    rw [bind_of_ok first]
    dsimp only at failed
    split_ifs at failed ⊢ with old
    split at failed
    next failure back => exact ⟨failure, bind_of_error back⟩
    next => cases failed

theorem processMessage_fail
    {exception : Exception Failure}
    (considered : Considered Hash env state msg)
    (failed : processMessage Hash env state msg = .fail exception) :
    Jams Hash env state msg := by
  rw [processMessage] at failed
  dsimp only at failed
  split_ifs at failed with version fresh verack headers addr inv ping
  · rcases receiveVersion_fail failed with ⟨fresh, failure, front⟩
    exact .undecodable considered (.version failure version fresh front)
  · rw [receiveHeaders] at failed
    split at failed
    next failure undecoded =>
      exact .undecodable considered (.headers failure headers fresh undecoded)
    next vHeaders rest decoded =>
      split at failed
      next failure threw =>
        exact .thrown vHeaders rest failure considered headers fresh decoded
          threw
      next => cases failed
  · rw [receiveAddr] at failed
    split at failed
    next failure undecoded =>
      exact .undecodable considered (.addr failure addr fresh undecoded)
    next =>
      dsimp only at failed
      split_ifs at failed
  · rw [receiveInv] at failed
    split at failed
    next failure undecoded =>
      exact .undecodable considered (.inv failure inv fresh undecoded)
    next => split_ifs at failed
  · rw [receivePing] at failed
    split_ifs at failed with pongs
    split at failed
    next failure undecoded =>
      exact .undecodable considered (.ping failure ping pongs undecoded)
    next => cases failed

theorem receiveVersion_undecodable
    {failure : StreamError} (fresh : state.node.nVersion = 0)
    (failed : readVersion msg.streamVersion msg.vRecv = .error failure) :
    receiveVersion Hash env state msg = .fail (.stream failure) := by
  rw [receiveVersion, if_neg (not_not.mpr fresh)]
  rw [readVersion] at failed
  cases first : readVersionFront msg.streamVersion msg.vRecv with
  | error early =>
      rw [bind_of_error first] at failed
      cases failed
      rfl
  | ok taken =>
      rcases taken with ⟨front, vRecv⟩
      rw [bind_of_ok first] at failed
      dsimp only
      split_ifs at failed ⊢ with old
      · cases failed
      · cases second : readVersionBack msg.streamVersion vRecv with
        | error late =>
            rw [bind_of_error second] at failed
            cases failed
            rfl
        | ok more =>
            rw [bind_of_ok second] at failed
            cases failed

theorem processMessage_undecodable
    (undecodable : Undecodable state.node.nVersion msg) :
    ∃ exception, processMessage Hash env state msg = .fail exception := by
  rw [processMessage]
  dsimp only
  cases undecodable with
  | version failure isVersion fresh failed =>
      rw [if_pos isVersion, receiveVersion_undecodable fresh failed]
      exact ⟨_, rfl⟩
  | headers failure isHeaders negotiated failed =>
      rw [isHeaders, if_neg (by decide), if_neg negotiated,
        if_neg (by decide), if_pos rfl, receiveHeaders, failed]
      exact ⟨_, rfl⟩
  | addr failure isAddr negotiated failed =>
      rw [isAddr, if_neg (by decide), if_neg negotiated, if_neg (by decide),
        if_neg (by decide), if_pos rfl, receiveAddr, failed]
      exact ⟨_, rfl⟩
  | inv failure isInv negotiated failed =>
      rw [isInv, if_neg (by decide), if_neg negotiated, if_neg (by decide),
        if_neg (by decide), if_neg (by decide), if_pos rfl, receiveInv, failed]
      exact ⟨_, rfl⟩
  | ping failure isPing pongs failed =>
      have negotiated : state.node.nVersion ≠ 0 := by
        intro fresh
        rw [fresh] at pongs
        exact absurd pongs (by decide)
      rw [isPing, if_neg (by decide), if_neg negotiated, if_neg (by decide),
        if_neg (by decide), if_neg (by decide), if_neg (by decide), if_pos rfl,
        receivePing, if_pos pongs, failed]
      exact ⟨_, rfl⟩

theorem Jams.sticks (jams : Jams Hash env state msg) :
    Sticks (handleMessage Hash env)
      (fun msg : QueuedMessage => msg.complete = true) (Excused env) state
      msg := by
  rw [Sticks]
  cases jams with
  | secondVersion considered isVersion negotiated connected =>
      have stops : processMessage Hash env state msg = .stop state msg := by
        rw [processMessage]
        exact (if_pos isVersion).trans (if_pos negotiated)
      rw [handleMessage_considered considered, stops]
      refine ⟨considered.complete, ?_⟩
      rintro (full | dropped)
      · exact absurd considered.room (not_lt.mpr full)
      · rw [connected] at dropped
        cases dropped
  | undecodable considered undecodable =>
      rcases @processMessage_undecodable _ _ _ Hash env _ _ undecodable with
        ⟨exception, fails⟩
      rw [handleMessage_considered considered, fails]
      trivial
  | thrown vHeaders rest failure considered isHeaders negotiated decoded threw =>
      have fails : processMessage Hash env state msg = .fail (.chain failure) := by
        rw [processMessage]
        dsimp only
        rw [isHeaders, if_neg (by decide), if_neg negotiated,
          if_neg (by decide), if_pos rfl, receiveHeaders, decoded]
        dsimp only
        rw [threw]
      rw [handleMessage_considered considered, fails]
      trivial

theorem considered_of_not_stop
    (room : ¬ env.sendBufferSize ≤ state.node.nSendSize)
    (partly : ¬ msg.complete = false)
    (passed : ¬ accepted Hash msg.toCBitcoinNetMessage = false) :
    Considered Hash env state msg :=
  ⟨not_le.mp room, Bool.eq_true_of_not_eq_false partly,
    Bool.eq_true_of_not_eq_false passed⟩

/-- The loop sticks at the messages that jam the queue, and at no others. -/
theorem sticks_iff :
    Sticks (handleMessage Hash env)
        (fun msg : QueuedMessage => msg.complete = true) (Excused env) state
        msg ↔
      Jams Hash env state msg := by
  refine ⟨fun sticks => ?_, Jams.sticks⟩
  rw [Sticks, handleMessage] at sticks
  by_cases full : env.sendBufferSize ≤ state.node.nSendSize
  · rw [if_pos full] at sticks
    exact absurd (Or.inl full) sticks.2
  · rw [if_neg full] at sticks
    by_cases partly : msg.complete = false
    · rw [if_pos partly] at sticks
      exact absurd sticks.1 (by simp [partly])
    · rw [if_neg partly] at sticks
      by_cases passed : accepted Hash msg.toCBitcoinNetMessage = false
      · rw [if_pos passed] at sticks
        exact sticks.elim
      · rw [if_neg passed] at sticks
        have considered := considered_of_not_stop full partly passed
        cases handled : processMessage Hash env state msg with
        | fail exception => exact processMessage_fail considered handled
        | take next =>
            rw [handled] at sticks
            exact sticks.elim
        | stop next last =>
            rw [handled] at sticks
            rcases processMessage_stop handled with
              ⟨rfl, -, isVersion, negotiated⟩ | ⟨dropped, -⟩
            · refine .secondVersion considered isVersion negotiated ?_
              exact Bool.eq_false_of_not_eq_true fun dropped =>
                sticks.2 (Or.inr dropped)
            · exact absurd (Or.inr dropped) sticks.2

end DSValue.Bitcoin.HandledMessages
