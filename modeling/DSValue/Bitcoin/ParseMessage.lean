import DSValue.Bitcoin.PeerMessages
import DSValue.Lib.Drain

/-!
# The loop over the messages of a Bitcoin peer

`parseMessage` handles the messages of a peer from the front of the queue and
erases them up to the one that it stopped at.  A message is passed over, or it
is handled by its command, or the loop is left at it.  An exception of a
stream, or of the chain manager, leaves `parseMessage` as well.
-/

namespace DSValue.Bitcoin.ParseMessage

open DSValue.Lib
open DSValue.Lib.Drain
open DSValue.Lib.Stream
open DSValue.Core.Serialize
open DSValue.Core.Deserialize
open DSValue.Bitcoin.MessageFraming
open DSValue.Bitcoin.PeerMessages

/-! ## Nodes -/

/-- A message and the version that its streams were created with. -/
structure QueuedMessage extends CBitcoinNetMessage where
  streamVersion : Int32
deriving DecidableEq

/-- What the operating system makes of a `send`. -/
inductive SendResult where
  | sent (nBytes : Nat)
  | again
  | broken

/--
`CBitcoinNode`.  A block index is given by its hash, and the set of known
addresses by its elements.
-/
structure CBitcoinNode where
  m_recvBitcoinMsg : List QueuedMessage
  nRecvVersion : Int32
  nVersion : Int32
  nServices : UInt64
  strSubVer : List UInt8
  cleanSubVer : List UInt8
  nStartingHeight : Int32
  fRelayTxes : Bool
  fClient : Bool
  fOneShot : Bool
  fNetworkNode : Bool
  fGetAddr : Bool
  fSuccessfullyConnected : Bool
  fDisconnect : Bool
  addr : CAddress
  setAddrKnown : List CAddress
  pindexLastGetBlocksBegin : Option Uint256
  hashLastGetBlocksEnd : Uint256
  hSocket : Option Nat
  sendVersion : Int32
  vSendMsg : List (List UInt8)
  nSendSize : Nat
  nSendOffset : Nat

/--
A node, what it talks to and what the next calls of `send` make of it, with the
vectors of headers that `AddBitcoinHeader` has been called with.
-/
structure State (Chain AddrMan : Type) where
  node : CBitcoinNode
  chain : Chain
  liteAddrMan : AddrMan
  sends : List SendResult
  handed : List (List CBitcoinBlock)

/--
The chain manager and the address manager, with the options and the time of a
call.  `AddBitcoinHeader` may throw.
-/
structure Environment (Chain AddrMan Failure : Type) where
  addBitcoinHeader : Chain → List CBitcoinBlock → Except Failure Chain
  isHaveBitcoinBlock : Chain → Uint256 → Bool
  getBitcoinChainTip : Chain → Option Uint256
  getTipBlockLocator : Chain → List Uint256
  size : AddrMan → Nat
  add : AddrMan → List CAddress → CAddress → AddrMan
  connected : AddrMan → CAddress → AddrMan
  isReachable : CAddress → Bool
  getAdjustedTime : Int64
  sendBufferSize : Nat

/-- What leaves `parseMessage` by an exception. -/
inductive Exception (Failure : Type) where
  | stream (failure : StreamError)
  | chain (failure : Failure)

/-! ## Sending -/

/-- `CNode::CloseSocketDisconnect`. -/
def closeSocketDisconnect (node : CBitcoinNode) : CBitcoinNode :=
  { node with fDisconnect := true, hSocket := none }

/-- The loop of `SocketSendData` over the messages to send. -/
def socketSendData (node : CBitcoinNode) (sends : List SendResult) :
    List (List UInt8) → CBitcoinNode × List SendResult
  | [] => ({ node with vSendMsg := [] }, sends)
  | data :: later =>
      let unsent := { node with vSendMsg := data :: later }
      if node.hSocket = none then (closeSocketDisconnect unsent, sends)
      else
        match sends with
        | [] => (unsent, [])
        | .again :: sends => (unsent, sends)
        | .broken :: sends => (closeSocketDisconnect unsent, sends)
        | .sent nBytes :: sends =>
            if node.nSendOffset + nBytes = data.length ∧ 0 < nBytes then
              socketSendData
                { node with
                  nSendOffset := 0
                  nSendSize := node.nSendSize - data.length }
                sends later
            else
              ({ unsent with nSendOffset := node.nSendOffset + nBytes }, sends)
termination_by structural vSendMsg => vSendMsg

variable {Chain AddrMan Failure : Type}

/-- The bytes between `BeginMessage` and `EndMessage`. -/
def ssSend (Hash : List UInt8 → Uint256) (pszCommand payload : List UInt8) :
    List UInt8 :=
  let hdr : CBitcoinMsgHeader :=
    { pchMessageStart := BitcoinMessageStart
      pchCommand := resize pszCommand 12
      nMessageSize := UInt32.ofNat payload.length
      nChecksum := checksum (Hash payload) }
  hdr.serialize ++ payload

/--
`PushMessage` without the options for tests: the message is sent at once when
no other one waits.
-/
def pushMessage (Hash : List UInt8 → Uint256) (pszCommand : List UInt8)
    (payload : List UInt8) (state : State Chain AddrMan) :
    State Chain AddrMan :=
  let data := ssSend Hash pszCommand payload
  let node :=
    { state.node with nSendSize := state.node.nSendSize + data.length }
  if node.vSendMsg = [] then
    let (sent, sends) := socketSendData node state.sends [data]
    { state with node := sent, sends := sends }
  else { state with node := { node with vSendMsg := node.vSendMsg ++ [data] } }

/-- `GetOrphanRootHash`: no orphan is ever put into the map that it reads. -/
def getOrphanRootHash : Uint256 := 0

/-- `CBitcoinNode::pushGetHeaders`. -/
def pushGetHeaders (Hash : List UInt8 → Uint256)
    (env : Environment Chain AddrMan Failure) (hashEnd : Uint256)
    (state : State Chain AddrMan) : State Chain AddrMan :=
  let tip := env.getBitcoinChainTip state.chain
  if state.node.pindexLastGetBlocksBegin ≠ tip ∨
      hashEnd ≠ state.node.hashLastGetBlocksEnd then
    let hashEnd := if hashEnd = 0 then getOrphanRootHash else hashEnd
    let locator := writeInt32 state.node.sendVersion ++
      writeVector writeUint256 (env.getTipBlockLocator state.chain)
    let pushed :=
      pushMessage Hash GETHEADERS (locator ++ writeUint256 hashEnd) state
    { pushed with
      node :=
        { pushed.node with
          pindexLastGetBlocksBegin := tip
          hashLastGetBlocksEnd := hashEnd } }
  else state

/-! ## Commands -/

/-- What the loop does with a message. -/
abbrev Handled (Chain AddrMan Failure : Type) :=
  Handling (State Chain AddrMan) QueuedMessage (Exception Failure)

/-- The end of a pass of the loop. -/
def nodeConnected (env : Environment Chain AddrMan Failure)
    (state : State Chain AddrMan) : State Chain AddrMan :=
  if state.node.fNetworkNode then
    { state with
      liteAddrMan := env.connected state.liteAddrMan state.node.addr }
  else state

/-- The fields that a `version` message sets. -/
def setVersion (node : CBitcoinNode) (front : VersionFront)
    (back : VersionBack) : CBitcoinNode :=
  { node with
    nVersion := if front.nVersion = 10300 then 300 else front.nVersion
    nServices := front.nServices
    strSubVer := back.strSubVer.getD node.strSubVer
    cleanSubVer := (back.strSubVer.map sanitizeString).getD node.cleanSubVer
    nStartingHeight := back.nStartingHeight.getD node.nStartingHeight
    fRelayTxes := back.fRelayTxes.getD true
    fClient := front.nServices &&& 1 = 0 }

/-- The answers to a `version` message. -/
def answerVersion (Hash : List UInt8 → Uint256)
    (env : Environment Chain AddrMan Failure) (state : State Chain AddrMan) :
    State Chain AddrMan :=
  let nVersion := state.node.nVersion
  let pushed := pushMessage Hash VERACK [] state
  let versioned :=
    { pushed with
      node := { pushed.node with sendVersion := min nVersion PROTOCOL_VERSION } }
  let asked :=
    if versioned.node.fOneShot ∨ CADDR_TIME_VERSION ≤ nVersion then
      let asked := pushMessage Hash GETADDR [] versioned
      { asked with node := { asked.node with fGetAddr := true } }
    else versioned
  nodeConnected env
    { asked with node := { asked.node with fSuccessfullyConnected := true } }

/-- The branch of `version`. -/
def receiveVersion (Hash : List UInt8 → Uint256)
    (env : Environment Chain AddrMan Failure) (state : State Chain AddrMan)
    (msg : QueuedMessage) : Handled Chain AddrMan Failure :=
  if state.node.nVersion ≠ 0 then .stop state msg
  else
    match readVersionFront msg.streamVersion msg.vRecv with
    | .error failure => .fail (.stream failure)
    | .ok (front, vRecv) =>
        if front.nVersion < BITCOIN_MIN_PEER_PROTO_VERSION then
          let node :=
            { state.node with
              nVersion := front.nVersion
              nServices := front.nServices
              fDisconnect := true }
          .stop { state with node := node } { msg with vRecv := vRecv }
        else
          match readVersionBack msg.streamVersion vRecv with
          | .error failure => .fail (.stream failure)
          | .ok (back, _) =>
              let node := setVersion state.node front back
              .take (answerVersion Hash env { state with node := node })

/-- The branch of `headers`. -/
def receiveHeaders (env : Environment Chain AddrMan Failure)
    (state : State Chain AddrMan) (msg : QueuedMessage) :
    Handled Chain AddrMan Failure :=
  match readVector readBlock msg.vRecv with
  | .error failure => .fail (.stream failure)
  | .ok (vHeaders, _) =>
      match env.addBitcoinHeader state.chain vHeaders with
      | .error failure => .fail (.chain failure)
      | .ok chain =>
          let handed := state.handed ++ [vHeaders]
          .take (nodeConnected env
            { state with chain := chain, handed := handed })

/-- The time that an address is given when its own one makes no sense. -/
def adjustTime (nNow : Int64) (caddr : CAddress) : CAddress :=
  if caddr.nTime ≤ 100000000 ∨
      nNow + 10 * 60 < caddr.nTime.toUInt64.toInt64 then
    { caddr with nTime := (nNow - 5 * 24 * 60 * 60).toUInt64.toUInt32 }
  else caddr

/-- `AddAddressKnown`: addresses are ordered by their service. -/
def addAddressKnown (setAddrKnown : List CAddress) (caddr : CAddress) :
    List CAddress :=
  if setAddrKnown.any fun known =>
      known.ip = caddr.ip ∧ known.port = caddr.port then setAddrKnown
  else setAddrKnown ++ [caddr]

/-- The branch of `addr`. -/
def receiveAddr (env : Environment Chain AddrMan Failure)
    (state : State Chain AddrMan) (msg : QueuedMessage) :
    Handled Chain AddrMan Failure :=
  match readVector (readAddress msg.streamVersion) msg.vRecv with
  | .error failure => .fail (.stream failure)
  | .ok (vAddr, _) =>
      if state.node.nVersion < CADDR_TIME_VERSION ∧
          1000 < env.size state.liteAddrMan ∨ 1000 < vAddr.length then
        .take state
      else
        let vAddr := vAddr.map (adjustTime env.getAdjustedTime)
        let vAddrOk := vAddr.filter env.isReachable
        let node :=
          { state.node with
            setAddrKnown := vAddr.foldl addAddressKnown state.node.setAddrKnown
            fGetAddr := false }
        let node := if node.fOneShot then closeSocketDisconnect node else node
        .take (nodeConnected env
          { state with
            node := node
            liteAddrMan := env.add state.liteAddrMan vAddrOk state.node.addr })

/-- The body of the loop over the items of an `inv` message. -/
def askForBlock (Hash : List UInt8 → Uint256)
    (env : Environment Chain AddrMan Failure) (state : State Chain AddrMan)
    (inv : CInv) : State Chain AddrMan :=
  if inv.type = MSG_BLOCK ∧ env.isHaveBitcoinBlock state.chain inv.hash = false
  then pushGetHeaders Hash env inv.hash state
  else state

/-- The branch of `inv`. -/
def receiveInv (Hash : List UInt8 → Uint256)
    (env : Environment Chain AddrMan Failure) (state : State Chain AddrMan)
    (msg : QueuedMessage) : Handled Chain AddrMan Failure :=
  match readVector readInv msg.vRecv with
  | .error failure => .fail (.stream failure)
  | .ok (vInv, _) =>
      if MAX_INV_SZ < vInv.length then .take state
      else .take (nodeConnected env (vInv.foldl (askForBlock Hash env) state))

/-- The branch of `ping`. -/
def receivePing (Hash : List UInt8 → Uint256) (state : State Chain AddrMan)
    (msg : QueuedMessage) : Handled Chain AddrMan Failure :=
  if BIP0031_VERSION < state.node.nVersion then
    match readLittleEndian 8 msg.vRecv with
    | .error failure => .fail (.stream failure)
    | .ok (nonce, _) =>
        .take (pushMessage Hash PONG (Encoding.littleEndian 8 nonce) state)
  else .take state

/-- The branches over the command of a message. -/
def processMessage (Hash : List UInt8 → Uint256)
    (env : Environment Chain AddrMan Failure) (state : State Chain AddrMan)
    (msg : QueuedMessage) : Handled Chain AddrMan Failure :=
  let strCommand := getCommand msg.hdr
  if strCommand = VERSION then receiveVersion Hash env state msg
  else if state.node.nVersion = 0 then .take state
  else if strCommand = VERACK then
    -- `SetRecvVersion` leaves the streams of `m_recvBitcoinMsg` as they are
    let nRecvVersion := min state.node.nVersion PROTOCOL_VERSION
    .take { state with node := { state.node with nRecvVersion := nRecvVersion } }
  else if strCommand = HEADERS then receiveHeaders env state msg
  else if strCommand = ADDR then receiveAddr env state msg
  else if strCommand = INV then receiveInv Hash env state msg
  else if strCommand = PING then receivePing Hash state msg
  else .take state

/-- The header is valid and has the checksum of the payload. -/
def accepted (Hash : List UInt8 → Uint256) (msg : CBitcoinNetMessage) : Bool :=
  isValid msg.hdr ∧
    checksum (Hash (msg.vRecv.take msg.hdr.nMessageSize.toNat)) =
      msg.hdr.nChecksum

/-- A pass of the loop of `parseMessage`. -/
def handleMessage (Hash : List UInt8 → Uint256)
    (env : Environment Chain AddrMan Failure) (state : State Chain AddrMan)
    (msg : QueuedMessage) : Handled Chain AddrMan Failure :=
  if env.sendBufferSize ≤ state.node.nSendSize then .stop state msg
  else if msg.complete = false then .stop state msg
  else if accepted Hash msg.toCBitcoinNetMessage = false then .take state
  else processMessage Hash env state msg

/-- `CBitcoinNode::parseMessage`. -/
def parseMessage (Hash : List UInt8 → Uint256)
    (env : Environment Chain AddrMan Failure) (state : State Chain AddrMan) :
    Except (Exception Failure) (State Chain AddrMan) :=
  match drain (handleMessage Hash env) state state.node.m_recvBitcoinMsg with
  | .error failure => .error failure
  | .ok (next, left) =>
      .ok { next with node := { next.node with m_recvBitcoinMsg := left } }

/-! ## Receiving -/

/-- The versions of the streams of a queue; new streams get `nRecvVersion`. -/
def withVersions (nRecvVersion : Int32) :
    List QueuedMessage → List CBitcoinNetMessage → List QueuedMessage
  | _, [] => []
  | [], msg :: msgs => ⟨msg, nRecvVersion⟩ :: withVersions nRecvVersion [] msgs
  | earlier :: others, msg :: msgs =>
      ⟨msg, earlier.streamVersion⟩ :: withVersions nRecvVersion others msgs

/-- `ReceiveMsgBytes` of a node, when it succeeds. -/
def CBitcoinNode.receive (node : CBitcoinNode) (pch : List UInt8) :
    Option CBitcoinNode :=
  match receiveMsgBytes
    (node.m_recvBitcoinMsg.map QueuedMessage.toCBitcoinNetMessage) pch with
  | some (.ok queue) =>
      some { node with
        m_recvBitcoinMsg :=
          withVersions node.nRecvVersion node.m_recvBitcoinMsg queue }
  | _ => none

end DSValue.Bitcoin.ParseMessage
