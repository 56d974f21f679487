import DSValue.Bitcoin.HandledMessages

/-!
# What becomes of the messages of a Bitcoin peer

The loop of `parseMessage` does not erase the message that it stops at.  After
the handshake a further `version` message makes it stop, so this message stays
at the front for good, and a payload that its branch cannot decode makes it
throw.  `parseMessage_clears_iff` says that these messages, and headers on
which `AddBitcoinHeader` throws, are all that keeps it from emptying the queue,
and that in a run without them every vector of headers received after the
handshake is handed over once.
-/

namespace DSValue.Bitcoin.MessageQueue

open DSValue.Lib
open DSValue.Lib.Drain
open DSValue.Core.Serialize
open DSValue.Bitcoin.MessageFraming
open DSValue.Bitcoin.PeerMessages
open DSValue.Bitcoin.ParseMessage
open DSValue.Bitcoin.HandledMessages

variable {Chain AddrMan Failure : Type} {Hash : List UInt8 → Uint256}
  {env : Environment Chain AddrMan Failure} {state next : State Chain AddrMan}
  {msg : QueuedMessage}

/-! ## Calls -/

/-- The loop of `parseMessage` comes to a message. -/
def Comes (Hash : List UInt8 → Uint256)
    (env : Environment Chain AddrMan Failure)
    (state before : State Chain AddrMan) (msg : QueuedMessage) : Prop :=
  Reaches (handleMessage Hash env) state state.node.m_recvBitcoinMsg before msg

/--
`parseMessage` returns, and unless it was stopped by a full send buffer or has
dropped the connection, no complete message is left.
-/
def ClearsQueue (Hash : List UInt8 → Uint256)
    (env : Environment Chain AddrMan Failure) (state : State Chain AddrMan) :
    Prop :=
  ∃ next, parseMessage Hash env state = .ok next ∧
    (Excused env next ∨
      ∀ msg ∈ next.node.m_recvBitcoinMsg, msg.complete = false)

theorem parseMessage_eq_ok
    (parsed : parseMessage Hash env state = .ok next) :
    ∃ final left, drain (handleMessage Hash env) state
        state.node.m_recvBitcoinMsg = .ok (final, left) ∧
      next = { final with
        node := { final.node with m_recvBitcoinMsg := left } } := by
  rw [parseMessage] at parsed
  split at parsed
  · cases parsed
  next final left drained =>
    cases parsed
    exact ⟨final, left, drained, rfl⟩

theorem clearsQueue_iff_clears :
    ClearsQueue Hash env state ↔
      Clears (handleMessage Hash env)
        (fun msg : QueuedMessage => msg.complete = true) (Excused env) state
        state.node.m_recvBitcoinMsg := by
  constructor
  · rintro ⟨next, parsed, cleared⟩
    rcases parseMessage_eq_ok parsed with ⟨final, left, drained, rfl⟩
    refine ⟨final, left, drained, ?_⟩
    rcases cleared with excused | partly
    · exact Or.inl excused
    · refine Or.inr fun msg member => ?_
      simp [partly msg member]
  · rintro ⟨final, left, drained, cleared⟩
    refine ⟨{ final with
      node := { final.node with m_recvBitcoinMsg := left } }, ?_, ?_⟩
    · rw [parseMessage, drained]
    · rcases cleared with excused | partly
      · exact Or.inl excused
      · refine Or.inr fun msg member => ?_
        exact Bool.eq_false_of_not_eq_true (partly msg member)

/-- A queue is cleared when the loop comes to no message that jams it. -/
theorem clearsQueue_iff
    (front : ∀ msg ∈ state.node.m_recvBitcoinMsg.dropLast, msg.complete = true) :
    ClearsQueue Hash env state ↔
      ∀ before msg, Comes Hash env state before msg →
        ¬ Jams Hash env before msg := by
  rw [clearsQueue_iff_clears, clears_iff front]
  · simp only [sticks_iff]
    rfl
  · intro before msg next last stopped complete
    rcases handleMessage_stop stopped with ⟨-, rfl⟩ | ⟨-, same⟩
    · exact complete
    · exact same.trans complete

/-- A `version` message after the handshake stays at the front for good. -/
theorem parseMessage_secondVersion
    {rest : List QueuedMessage}
    (queue : state.node.m_recvBitcoinMsg = msg :: rest)
    (considered : Considered Hash env state msg)
    (isVersion : getCommand msg.hdr = VERSION)
    (negotiated : state.node.nVersion ≠ 0) :
    parseMessage Hash env state = .ok state := by
  have stops : handleMessage Hash env state msg = .stop state msg := by
    rw [handleMessage_considered considered, processMessage]
    exact (if_pos isVersion).trans (if_pos negotiated)
  rw [parseMessage, queue, drain, stops]
  dsimp only
  rw [← queue]

/-! ## Runs -/

/--
The states of a node: packets are received and messages parsed as long as the
connection is not dropped, and other code sends and changes what surrounds the
node.  The bytes received and the messages erased are kept.
-/
inductive Run (Failure : Type) (Hash : List UInt8 → Uint256) :
    List UInt8 → List QueuedMessage → State Chain AddrMan → Prop where
  | start {state : State Chain AddrMan}
      (empty : state.node.m_recvBitcoinMsg = [])
      (fresh : state.node.nVersion = 0) (unhanded : state.handed = []) :
      Run Failure Hash [] [] state
  | receive {stream pch : List UInt8} {erased : List QueuedMessage}
      {state : State Chain AddrMan} {node : CBitcoinNode}
      (run : Run Failure Hash stream erased state)
      (connected : state.node.fDisconnect = false)
      (received : state.node.receive pch = some node) :
      Run Failure Hash (stream ++ pch) erased { state with node := node }
  | parse {env : Environment Chain AddrMan Failure} {stream : List UInt8}
      {erased : List QueuedMessage} {state next : State Chain AddrMan}
      (run : Run Failure Hash stream erased state)
      (connected : state.node.fDisconnect = false)
      (parsed : parseMessage Hash env state = .ok next) :
      Run Failure Hash stream
        (erased ++ state.node.m_recvBitcoinMsg.take
          (state.node.m_recvBitcoinMsg.length -
            next.node.m_recvBitcoinMsg.length)) next
  | elsewhere {stream : List UInt8} {erased : List QueuedMessage}
      {state next : State Chain AddrMan}
      (run : Run Failure Hash stream erased state)
      (queue : next.node.m_recvBitcoinMsg = state.node.m_recvBitcoinMsg)
      (keeps : Keeps state next)
      (dropped : state.node.fDisconnect = true → next.node.fDisconnect = true) :
      Run Failure Hash stream erased next

/-! ## What was erased -/

/-- The erased messages are complete, and the node is what they made of it. -/
structure Counted (Hash : List UInt8 → Uint256) (erased : List QueuedMessage)
    (state : State Chain AddrMan) : Prop where
  complete : ∀ msg ∈ erased, msg.complete = true
  nVersion :
    state.node.nVersion = 0 ↔
      ∀ msg ∈ erased, handshake Hash msg.toCBitcoinNetMessage = false
  handed :
    state.handed = headersAfterHandshake Hash
      (erased.map QueuedMessage.toCBitcoinNetMessage)

/-- The messages of the stream are the erased ones and those of the queue. -/
structure Sorted (Hash : List UInt8 → Uint256) (stream : List UInt8)
    (erased : List QueuedMessage) (state : State Chain AddrMan) : Prop
    extends Counted Hash erased state where
  framed :
    receiveMsgBytes [] stream =
      some (.ok ((erased ++ state.node.m_recvBitcoinMsg).map
        QueuedMessage.toCBitcoinNetMessage))

variable {stream pch : List UInt8} {erased taken : List QueuedMessage}

theorem headersAfterHandshake_concat
    (msgs : List CBitcoinNetMessage) (msg : CBitcoinNetMessage) :
    headersAfterHandshake Hash (msgs ++ [msg]) =
      headersAfterHandshake Hash msgs ++
        if ∀ other ∈ msgs, handshake Hash other = false then []
        else (headersOf Hash msg).toList := by
  rw [headersAfterHandshake, headersAfterHandshake, List.dropWhile_append]
  by_cases silent : ∀ other ∈ msgs, handshake Hash other = false
  · have before : msgs.dropWhile (fun other => !handshake Hash other) = [] := by
      rw [List.dropWhile_eq_nil_iff]
      intro other member
      rw [silent other member]
      rfl
    rw [if_pos silent, before, if_pos List.isEmpty_nil, List.filterMap_nil,
      List.append_nil]
    cases isHandshake : handshake Hash msg with
    | false =>
        rw [List.dropWhile_cons_of_pos (by rw [isHandshake]; rfl)]
        rfl
    | true =>
        have isVersion := (of_decide_eq_true isHandshake).2
        have noHeaders : headersOf Hash msg = none := by
          refine if_neg fun isHeaders => ?_
          rw [isVersion] at isHeaders
          exact absurd isHeaders.2 (by decide)
        rw [List.dropWhile_cons_of_neg (by simp [isHandshake]),
          List.filterMap_cons, noHeaders]
        rfl
  · have before : msgs.dropWhile (fun other => !handshake Hash other) ≠ [] := by
      rw [Ne, List.dropWhile_eq_nil_iff]
      simpa using silent
    rw [if_neg silent, if_neg (by simpa using before), List.filterMap_append]
    rfl

theorem Counted.take
    (counted : Counted Hash erased state)
    (taken : handleMessage Hash env state msg = .take next) :
    Counted Hash (erased ++ [msg]) next := by
  rcases handleMessage_take taken with ⟨complete, step⟩
  constructor
  · intro other member
    rw [List.mem_append, List.mem_singleton] at member
    rcases member with earlier | rfl
    · exact counted.complete other earlier
    · exact complete
  · rw [step.nVersion, counted.nVersion]
    simp only [List.mem_append, List.mem_singleton, or_imp, forall_and,
      forall_eq]
  · have silent : (∀ other ∈ erased.map QueuedMessage.toCBitcoinNetMessage,
        handshake Hash other = false) ↔ state.node.nVersion = 0 := by
      rw [counted.nVersion, List.forall_mem_map]
    rw [step.handed, List.map_append, List.map_singleton,
      headersAfterHandshake_concat, counted.handed]
    simp only [silent]

/-- The node counts the messages that the loop takes. -/
theorem Counted.takes
    (counted : Counted Hash erased state)
    (takes : Takes (handleMessage Hash env) state taken next) :
    Counted Hash (erased ++ taken) next :=
  takes.invariant (fun _ _ _ _ earlier taken => earlier.take taken) counted

theorem map_withVersions
    (nRecvVersion : Int32) (earlier : List QueuedMessage)
    (msgs : List CBitcoinNetMessage) :
    (withVersions nRecvVersion earlier msgs).map
      QueuedMessage.toCBitcoinNetMessage = msgs := by
  induction msgs generalizing earlier with
  | nil => cases earlier <;> rfl
  | cons msg msgs inductionHypothesis =>
      cases earlier with
      | nil => exact congrArg _ (inductionHypothesis [])
      | cons first others => exact congrArg _ (inductionHypothesis others)

theorem receive_fDisconnect
    {node after : CBitcoinNode} (received : node.receive pch = some after) :
    after.fDisconnect = node.fDisconnect := by
  rw [CBitcoinNode.receive] at received
  split at received
  · cases received
    rfl
  · cases received

theorem Sorted.receive
    {node : CBitcoinNode} (sorted : Sorted Hash stream erased state)
    (received : state.node.receive pch = some node) :
    Sorted Hash (stream ++ pch) erased { state with node := node } := by
  rw [CBitcoinNode.receive] at received
  split at received
  next queue bytes =>
    cases received
    refine ⟨⟨sorted.complete, sorted.nVersion, sorted.handed⟩, ?_⟩
    have framed := sorted.framed
    rw [List.map_append] at framed ⊢
    rw [map_withVersions]
    refine receiveMsgBytes_append ?_ framed bytes
    rw [List.forall_mem_map]
    exact sorted.complete
  next => cases received

/-- As long as the connection is not dropped, the queue is what is left. -/
theorem Sorted.parse
    (sorted : Sorted Hash stream erased state)
    (parsed : parseMessage Hash env state = .ok next)
    (connected : next.node.fDisconnect = false) :
    Sorted Hash stream
      (erased ++ state.node.m_recvBitcoinMsg.take
        (state.node.m_recvBitcoinMsg.length -
          next.node.m_recvBitcoinMsg.length)) next := by
  rcases parseMessage_eq_ok parsed with ⟨final, left, drained, rfl⟩
  have split : ∃ taken, state.node.m_recvBitcoinMsg = taken ++ left ∧
      Takes (handleMessage Hash env) state taken final := by
    rcases drain_eq_ok drained with
      ⟨taken, ⟨takes, whole, rfl⟩ |
        ⟨before, item, rest, last, whole, takes, stopped, rfl⟩⟩
    · exact ⟨taken, by rw [List.append_nil, whole], takes⟩
    · rcases handleMessage_stop stopped with ⟨rfl, rfl⟩ | ⟨dropped, -⟩
      · exact ⟨taken, whole, takes⟩
      · rw [dropped] at connected
        cases connected
  rcases split with ⟨taken, whole, takes⟩
  have erase : state.node.m_recvBitcoinMsg.take
      (state.node.m_recvBitcoinMsg.length - left.length) = taken := by
    rw [whole, List.length_append, Nat.add_sub_cancel, List.take_left]
  have counted := sorted.toCounted.takes takes
  have framed := sorted.framed
  rw [whole, ← List.append_assoc] at framed
  rw [erase]
  exact ⟨⟨counted.complete, counted.nVersion, counted.handed⟩, framed⟩

/-- In every run the queue and what was erased are the messages received. -/
theorem Run.sorted
    (run : Run Failure Hash stream erased state)
    (connected : state.node.fDisconnect = false) :
    Sorted Hash stream erased state := by
  induction run with
  | start empty fresh unhanded =>
      refine ⟨⟨nofun, ?_, unhanded⟩, ?_⟩
      · simp [fresh]
      · rw [empty]
        rfl
  | receive _ earlier received inductionHypothesis =>
      exact (inductionHypothesis earlier).receive received
  | parse _ earlier parsed inductionHypothesis =>
      exact (inductionHypothesis earlier).parse parsed connected
  | elsewhere _ queue keeps dropped inductionHypothesis =>
      have before := inductionHypothesis
        (Bool.eq_false_of_not_eq_true fun isDropped => by
          rw [dropped isDropped] at connected
          cases connected)
      refine ⟨⟨before.complete, ?_, ?_⟩, ?_⟩
      · rw [keeps.nVersion]
        exact before.nVersion
      · rw [keeps.handed]
        exact before.handed
      · rw [queue]
        exact before.framed

theorem Sorted.front
    (sorted : Sorted Hash stream erased state) :
    ∀ msg ∈ state.node.m_recvBitcoinMsg.dropLast, msg.complete = true := by
  have whole := sorted.framed
  rw [receiveMsgBytes, Chunks.consume_eq itemwise_absorb framed_nil,
    Option.some.injEq] at whole
  have framed := framed_drop (foldlM_feedByte_ok framed_nil whole).1
    erased.length
  rw [List.map_append, List.drop_left' (List.length_map _)] at framed
  intro msg member
  refine framed.complete msg.toCBitcoinNetMessage ?_
  rw [← List.map_dropLast]
  exact List.mem_map_of_mem member

/-- When no complete message waits, all that were received are erased. -/
theorem Sorted.filter_complete
    (sorted : Sorted Hash stream erased state)
    (cleared : ∀ msg ∈ state.node.m_recvBitcoinMsg, msg.complete = false) :
    ((erased ++ state.node.m_recvBitcoinMsg).map
        QueuedMessage.toCBitcoinNetMessage).filter
          CBitcoinNetMessage.complete =
      erased.map QueuedMessage.toCBitcoinNetMessage := by
  have front : (erased.map QueuedMessage.toCBitcoinNetMessage).filter
      CBitcoinNetMessage.complete =
        erased.map QueuedMessage.toCBitcoinNetMessage := by
    rw [List.filter_eq_self, List.forall_mem_map]
    exact sorted.complete
  have back : (state.node.m_recvBitcoinMsg.map
      QueuedMessage.toCBitcoinNetMessage).filter
        CBitcoinNetMessage.complete = [] := by
    rw [List.filter_eq_nil_iff, List.forall_mem_map]
    intro msg member
    rw [cleared msg member]
    exact Bool.false_ne_true
  rw [List.map_append, List.filter_append, front, back, List.append_nil]

/--
`parseMessage` clears the queue exactly when the loop comes to no message that
jams it.  In every run the messages received are those that were erased and
those of the queue, and the headers of the erased ones behind the first
`version` message have been handed over, each once and in this order.  A call
that comes to no message that jams the queue leaves no complete message, hence
then these are all the headers received, unless the send buffer is full or the
connection is dropped.
-/
theorem parseMessage_clears_iff (Hash : List UInt8 → Uint256) :
    (∀ (env : Environment Chain AddrMan Failure) (state : State Chain AddrMan),
      (∀ msg ∈ state.node.m_recvBitcoinMsg.dropLast, msg.complete = true) →
        (ClearsQueue Hash env state ↔
          ∀ before msg, Comes Hash env state before msg →
            ¬ Jams Hash env before msg)) ∧
    (∀ (stream : List UInt8) (erased : List QueuedMessage)
      (state : State Chain AddrMan),
      Run Failure Hash stream erased state → state.node.fDisconnect = false →
        ∃ received, receiveMsgBytes [] stream = some (.ok received) ∧
          received = (erased ++ state.node.m_recvBitcoinMsg).map
            QueuedMessage.toCBitcoinNetMessage ∧
          (∀ msg ∈ state.node.m_recvBitcoinMsg.dropLast,
            msg.complete = true) ∧
          state.handed = headersAfterHandshake Hash
            (erased.map QueuedMessage.toCBitcoinNetMessage) ∧
          ∀ env : Environment Chain AddrMan Failure,
            (∀ before msg, Comes Hash env state before msg →
              ¬ Jams Hash env before msg) →
            ∃ next, parseMessage Hash env state = .ok next ∧
              (Excused env next ∨
                (∀ msg ∈ next.node.m_recvBitcoinMsg, msg.complete = false) ∧
                next.handed = headersAfterHandshake Hash
                  (received.filter CBitcoinNetMessage.complete))) := by
  refine ⟨fun env state front => clearsQueue_iff front, ?_⟩
  intro stream erased state run connected
  have sorted := run.sorted connected
  refine ⟨_, sorted.framed, rfl, sorted.front, sorted.handed, ?_⟩
  intro env smooth
  rcases (clearsQueue_iff sorted.front).mpr smooth with ⟨next, parsed, cleared⟩
  refine ⟨next, parsed, ?_⟩
  by_cases excused : Excused env next
  · exact Or.inl excused
  · have partly := cleared.resolve_left excused
    have still : next.node.fDisconnect = false :=
      Bool.eq_false_of_not_eq_true fun dropped => excused (Or.inr dropped)
    have after := sorted.parse parsed still
    have same := sorted.framed.symm.trans after.framed
    rw [Option.some.injEq, Except.ok.injEq] at same
    refine Or.inr ⟨partly, ?_⟩
    rw [same, after.filter_complete partly]
    exact after.handed

/-! ## A second version message -/

/-- The payload of a `version` message without the fields that may be missing. -/
def versionPayload : List UInt8 :=
  [0x72, 0x11, 0x01, 0, 1, 0, 0, 0, 0, 0, 0, 0] ++ List.replicate 8 0 ++
    [1, 0, 0, 0, 0, 0, 0, 0] ++ List.replicate 18 0

/-- The first bytes of the double SHA-256 of three payloads. -/
def knownHash (payload : List UInt8) : Uint256 :=
  if payload = [] then 0xe2e0f65d
  else if payload = [0] then 0x58e00614
  else if payload = versionPayload then 0xc10fd65e
  else 0

/-- A node that was just connected. -/
def peer : CBitcoinNode where
  m_recvBitcoinMsg := []
  nRecvVersion := INIT_PROTO_VERSION
  nVersion := 0
  nServices := 0
  strSubVer := []
  cleanSubVer := []
  nStartingHeight := -1
  fRelayTxes := false
  fClient := false
  fOneShot := false
  fNetworkNode := false
  fGetAddr := false
  fSuccessfullyConnected := false
  fDisconnect := false
  addr := ⟨List.replicate 16 0, 8333, 1, 100000000⟩
  setAddrKnown := []
  pindexLastGetBlocksBegin := none
  hashLastGetBlocksEnd := 0
  hSocket := some 1
  sendVersion := INIT_PROTO_VERSION
  vSendMsg := []
  nSendSize := 0
  nSendOffset := 0

/-- The state of a node with a chain manager that knows nothing. -/
def alone (node : CBitcoinNode) : State Unit Unit :=
  ⟨node, (), (), [], []⟩

def quiet : Environment Unit Unit Unit where
  addBitcoinHeader _ _ := .ok ()
  isHaveBitcoinBlock _ _ := false
  getBitcoinChainTip _ := none
  getTipBlockLocator _ := []
  size _ := 0
  add _ _ _ := ()
  connected _ _ := ()
  isReachable _ := true
  getAdjustedTime := 1404029522
  sendBufferSize := 1000000

/-- What a call leaves: which messages are complete, and what it handed over. -/
structure Left where
  complete : List Bool
  fDisconnect : Bool
  nSendSize : Nat
  handed : List (List CBitcoinBlock)
deriving DecidableEq

def Left.of (next : State Unit Unit) : Left where
  complete := next.node.m_recvBitcoinMsg.map fun msg => msg.complete
  fDisconnect := next.node.fDisconnect
  nSendSize := next.node.nSendSize
  handed := next.handed

/-- A call of `parseMessage` for the bytes of a packet. -/
def receiveAndParse (pch : List UInt8) : Option (Option Left) :=
  (peer.receive pch).map fun node =>
    match parseMessage knownHash quiet (alone node) with
    | .error _ => none
    | .ok next => some (Left.of next)

theorem receiveAndParse_error (failed : receiveAndParse pch = some none) :
    ∃ node exception, peer.receive pch = some node ∧
      parseMessage knownHash quiet (alone node) = .error exception := by
  rw [receiveAndParse, Option.map_eq_some_iff] at failed
  rcases failed with ⟨node, received, parsed⟩
  cases result : parseMessage knownHash quiet (alone node) with
  | error exception => exact ⟨node, exception, received, result⟩
  | ok next =>
      rw [result] at parsed
      cases parsed

theorem receiveAndParse_ok
    {left : Left} (ran : receiveAndParse pch = some (some left)) :
    ∃ node next, peer.receive pch = some node ∧
      parseMessage knownHash quiet (alone node) = .ok next ∧
      Left.of next = left := by
  rw [receiveAndParse, Option.map_eq_some_iff] at ran
  rcases ran with ⟨node, received, parsed⟩
  cases result : parseMessage knownHash quiet (alone node) with
  | error exception =>
      rw [result] at parsed
      cases parsed
  | ok next =>
      rw [result] at parsed
      cases parsed
      exact ⟨node, next, received, result, rfl⟩

/-- Whether a queue is cleared can be told from what the call leaves. -/
theorem clearsQueue_alone
    {node : CBitcoinNode} {next : State Unit Unit}
    (parsed : parseMessage knownHash quiet (alone node) = .ok next) :
    ClearsQueue knownHash quiet (alone node) ↔
      (1000000 ≤ (Left.of next).nSendSize ∨
        (Left.of next).fDisconnect = true) ∨
        ∀ complete ∈ (Left.of next).complete, complete = false := by
  rw [ClearsQueue, parsed]
  simp only [Except.ok.injEq, exists_eq_left']
  refine or_congr Iff.rfl ?_
  show _ ↔ ∀ complete ∈ next.node.m_recvBitcoinMsg.map
    (fun msg => msg.complete), complete = false
  rw [List.forall_mem_map]

/-- A handshake and an empty `headers` message behind it. -/
def oneVersion : List UInt8 :=
  ssSend knownHash VERSION versionPayload ++ ssSend knownHash HEADERS [0]

/-- The same with the `version` message sent twice. -/
def twoVersions : List UInt8 :=
  ssSend knownHash VERSION versionPayload ++ oneVersion

theorem parse_oneVersion :
    receiveAndParse oneVersion = some (some ⟨[], false, 48, [[]]⟩) := by
  decide

theorem parse_twoVersions :
    receiveAndParse twoVersions = some (some ⟨[true, true], false, 48, []⟩) := by
  decide +kernel

/-- A `version` message without payload. -/
theorem parse_empty :
    receiveAndParse (ssSend knownHash VERSION []) = some none := by
  decide

theorem received_twoVersions :
    (peer.receive twoVersions).map (fun node =>
        headersAfterHandshake knownHash (node.m_recvBitcoinMsg.map
          QueuedMessage.toCBitcoinNetMessage)) = some [[]] := by
  decide +kernel

/--
`parseMessage` throws at a `version` message without payload, and it leaves a
second `version` message and the headers behind it in the queue.
-/
theorem not_clearsQueue :
    (∃ node exception, peer.receive (ssSend knownHash VERSION []) = some node ∧
      parseMessage knownHash quiet (alone node) = .error exception) ∧
    ∃ node next, peer.receive twoVersions = some node ∧
      parseMessage knownHash quiet (alone node) = .ok next ∧
      ¬ ClearsQueue knownHash quiet (alone node) ∧
      headersAfterHandshake knownHash (node.m_recvBitcoinMsg.map
        QueuedMessage.toCBitcoinNetMessage) = [[]] ∧ next.handed = [] := by
  refine ⟨receiveAndParse_error parse_empty, ?_⟩
  rcases receiveAndParse_ok parse_twoVersions with
    ⟨node, next, received, parsed, left⟩
  have headers := received_twoVersions
  rw [received, Option.map_some, Option.some.injEq] at headers
  refine ⟨node, next, received, parsed, ?_, headers, congrArg Left.handed left⟩
  rw [clearsQueue_alone parsed, left]
  decide

/-- The headers behind a single `version` message are handed over. -/
theorem parseMessage_clears_iff_oneVersion :
    ∃ node received next, peer.receive oneVersion = some node ∧
      receiveMsgBytes [] ([] ++ oneVersion) = some (.ok received) ∧
      parseMessage knownHash quiet (alone node) = .ok next ∧
      (Excused quiet next ∨
        (∀ msg ∈ next.node.m_recvBitcoinMsg, msg.complete = false) ∧
        next.handed = headersAfterHandshake knownHash
          (received.filter CBitcoinNetMessage.complete)) := by
  rcases receiveAndParse_ok parse_oneVersion with
    ⟨node, next, got, parsed, left⟩
  have clears : ClearsQueue knownHash quiet (alone node) := by
    rw [clearsQueue_alone parsed, left]
    decide
  have start : Run Unit knownHash [] [] (alone peer) := .start rfl rfl rfl
  have run : Run Unit knownHash ([] ++ oneVersion) [] (alone node) :=
    start.receive rfl got
  have connected : (alone node).node.fDisconnect = false :=
    receive_fDisconnect got
  have holds := @parseMessage_clears_iff Unit Unit Unit knownHash
  rcases holds.2 _ _ _ run connected with
    ⟨received, framed, -, front, -, later⟩
  rcases later quiet ((holds.1 quiet _ front).mp clears) with
    ⟨other, again, cleared⟩
  exact ⟨node, received, other, got, framed, again, cleared⟩

end DSValue.Bitcoin.MessageQueue
