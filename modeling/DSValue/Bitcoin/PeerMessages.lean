import DSValue.Bitcoin.HeaderTree
import DSValue.Bitcoin.MessageFraming
import DSValue.Core.Transaction

/-!
# Messages of Bitcoin peers

The header of a message names its command and carries the first four bytes of
the hash of its payload.  What the payload has to spell depends on the command
and, for addresses, on the version that the stream of the message was created
with.
-/

namespace DSValue.Bitcoin.PeerMessages

open DSValue.Lib
open DSValue.Lib.Encoding
open DSValue.Lib.Stream
open DSValue.Core.Serialize
open DSValue.Core.Deserialize
open DSValue.Core.Transaction
open DSValue.Bitcoin.MessageFraming

/-! ## Headers -/

/-- `BITCOIN_MIN_PEER_PROTO_VERSION`. -/
def BITCOIN_MIN_PEER_PROTO_VERSION : Int32 := 70002

/-- `PROTOCOL_VERSION`. -/
def PROTOCOL_VERSION : Int32 := 70002

/-- `INIT_PROTO_VERSION`. -/
def INIT_PROTO_VERSION : Int32 := 209

/-- `CADDR_TIME_VERSION`. -/
def CADDR_TIME_VERSION : Int32 := 31402

/-- `BIP0031_VERSION`. -/
def BIP0031_VERSION : Int32 := 60000

/-- `MAX_INV_SZ`. -/
def MAX_INV_SZ : Nat := 50000

/-- `MSG_BLOCK`. -/
def MSG_BLOCK : Int32 := 2

/-- The check of a command string, which is all zeros after the first zero. -/
def checkCommand : List UInt8 → Bool
  | [] => true
  | p1 :: rest =>
      if p1 = 0 then rest.all fun byte => byte = 0
      else if p1 < 0x20 ∨ 0x7E < p1 then false
      else checkCommand rest

/-- `CBitcoinMsgHeader::IsValid`. -/
def isValid (hdr : CBitcoinMsgHeader) : Bool :=
  hdr.pchMessageStart = BitcoinMessageStart ∧ checkCommand hdr.pchCommand ∧
    hdr.nMessageSize.toNat ≤ MAX_SIZE

/-- `CMessageHeader::GetCommand`. -/
def getCommand (hdr : CBitcoinMsgHeader) : List UInt8 :=
  if hdr.pchCommand[11]? = some 0 then
    hdr.pchCommand.takeWhile fun byte => byte ≠ 0
  else hdr.pchCommand

/-- The bytes of a command. -/
def command (name : List Char) : List UInt8 :=
  name.map fun letter => UInt8.ofNat letter.toNat

def VERSION : List UInt8 := command ['v', 'e', 'r', 's', 'i', 'o', 'n']

def VERACK : List UInt8 := command ['v', 'e', 'r', 'a', 'c', 'k']

def HEADERS : List UInt8 := command ['h', 'e', 'a', 'd', 'e', 'r', 's']

def ADDR : List UInt8 := command ['a', 'd', 'd', 'r']

def INV : List UInt8 := command ['i', 'n', 'v']

def PING : List UInt8 := command ['p', 'i', 'n', 'g']

def PONG : List UInt8 := command ['p', 'o', 'n', 'g']

def GETADDR : List UInt8 := command ['g', 'e', 't', 'a', 'd', 'd', 'r']

def GETHEADERS : List UInt8 :=
  command ['g', 'e', 't', 'h', 'e', 'a', 'd', 'e', 'r', 's']

/-- The bytes of a hash that are copied to a checksum. -/
def checksum (hash : Uint256) : UInt32 :=
  UInt32.ofNat hash.toNat

/-! ## Payloads -/

def readUInt64 : Reader UInt64 := do
  let value ← readLittleEndian 8
  pure (UInt64.ofNat value)

def readInt64 : Reader Int64 := do
  let value ← readLittleEndian 8
  pure (Int64.ofBitVec (BitVec.ofNat 64 value))

def readBool : Reader Bool := do
  let value ← readLittleEndian 1
  pure (value ≠ 0)

/-- `CAddress`, with the fields of the stream. -/
structure CAddress where
  ip : List UInt8
  port : UInt16
  nServices : UInt64
  nTime : UInt32
deriving DecidableEq

/-- `IMPLEMENT_SERIALIZE` of `CAddress`; the port is in network order. -/
def readAddress (nVersion : Int32) : Reader CAddress := do
  let nTime ←
    if CADDR_TIME_VERSION ≤ nVersion then readUInt32 else pure 100000000
  let nServices ← readUInt64
  let ip ← readBytes 16
  let port ← readBytes 2
  pure ⟨ip, UInt16.ofNat (leValue port.reverse), nServices, nTime⟩

/-- `CInv`. -/
structure CInv where
  type : Int32
  hash : Uint256
deriving DecidableEq

def readInv : Reader CInv := do
  let type ← readInt32
  let hash ← readUint256
  pure ⟨type, hash⟩

def readTxIn : Reader CTxIn := do
  let hash ← readUint256
  let n ← readUInt32
  let scriptSig ← readByteVector
  let nSequence ← readUInt32
  pure ⟨⟨hash, n⟩, scriptSig, nSequence⟩

def readTxOut : Reader CTxOut := do
  let nValue ← readInt64
  let scriptPubKey ← readByteVector
  pure ⟨nValue, scriptPubKey⟩

def readTransaction : Reader CTransaction := do
  let nVersion ← readInt32
  let vin ← readVector readTxIn
  let vout ← readVector readTxOut
  let nLockTime ← readUInt32
  pure ⟨nVersion, vin, vout, nLockTime⟩

/-- `CBitcoinBlock`. -/
structure CBitcoinBlock extends HeaderTree.CBitcoinBlock where
  vtx : List CTransaction
deriving DecidableEq

def readHeader : Reader HeaderTree.CBitcoinBlock := do
  let nVersion ← readInt32
  let hashPrevBlock ← readUint256
  let hashMerkleRoot ← readUint256
  let nTime ← readUInt32
  let nBits ← readUInt32
  let nNonce ← readUInt32
  pure ⟨nVersion, hashPrevBlock, hashMerkleRoot, nTime, nBits, nNonce⟩

def readBlock : Reader CBitcoinBlock := do
  let header ← readHeader
  let vtx ← readVector readTransaction
  pure ⟨header, vtx⟩

/-- The fields of a `version` message that are always read. -/
structure VersionFront where
  nVersion : Int32
  nServices : UInt64
  nTime : Int64
  addrMe : CAddress
deriving DecidableEq

/-- `vRecv >> nVersion >> nServices >> nTime >> addrMe`. -/
def readVersionFront (streamVersion : Int32) : Reader VersionFront := do
  let nVersion ← readInt32
  let nServices ← readUInt64
  let nTime ← readInt64
  let addrMe ← readAddress streamVersion
  pure ⟨nVersion, nServices, nTime, addrMe⟩

/-- A field that is read unless the stream is at its end. -/
def readUnlessEmpty {α : Type} (read : Reader α) : Reader (Option α) := do
  let vRecv ← get
  if vRecv.isEmpty then pure none
  else do
    let value ← read
    pure (some value)

/-- The fields of a `version` message that may be missing. -/
structure VersionBack where
  addrFrom : Option (CAddress × UInt64)
  strSubVer : Option (List UInt8)
  nStartingHeight : Option Int32
  fRelayTxes : Option Bool
deriving DecidableEq

def readVersionBack (streamVersion : Int32) : Reader VersionBack := do
  let addrFrom ← readUnlessEmpty do
    let addrFrom ← readAddress streamVersion
    let nNonce ← readUInt64
    pure (addrFrom, nNonce)
  let strSubVer ← readUnlessEmpty readByteVector
  let nStartingHeight ← readUnlessEmpty readInt32
  let fRelayTxes ← readUnlessEmpty readBool
  pure ⟨addrFrom, strSubVer, nStartingHeight, fRelayTxes⟩

/-- `safeChars`. -/
def safeChars : List UInt8 :=
  (List.range 26).map (fun offset => UInt8.ofNat (0x61 + offset)) ++
    (List.range 26).map (fun offset => UInt8.ofNat (0x41 + offset)) ++
    (List.range 10).map (fun offset => UInt8.ofNat (0x30 + offset)) ++
    command [' ', '.', ',', ';', '_', '/', ':', '?', '@']

/-- `SanitizeString`. -/
def sanitizeString (str : List UInt8) : List UInt8 :=
  str.filter fun letter => letter ∈ safeChars

end DSValue.Bitcoin.PeerMessages
