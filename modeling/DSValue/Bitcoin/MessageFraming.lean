import DSValue.Core.Deserialize
import DSValue.Lib.Chunks
import Mathlib.Data.List.TakeDrop

/-!
# Framing of Bitcoin messages

`ReceiveMsgBytes` cuts the bytes of a connection into messages: 24 bytes of
header, then as many bytes of payload as the header says.  How far a message
has come is spread over a flag and two positions.  Every iteration takes at
least one byte and has the effect of its bytes one by one, so the queue does
not depend on the packets that the bytes came in.
-/

namespace DSValue.Bitcoin.MessageFraming

open DSValue.Lib
open DSValue.Lib.Encoding
open DSValue.Lib.Stream
open DSValue.Core.Serialize
open DSValue.Core.Deserialize

/-! ## Headers -/

/-- `BitcoinMessageStart`. -/
def BitcoinMessageStart : List UInt8 := [0xF9, 0xBE, 0xB4, 0xD9]

/-- `CBitcoinMsgHeader`. -/
structure CBitcoinMsgHeader where
  pchMessageStart : List UInt8
  pchCommand : List UInt8
  nMessageSize : UInt32
  nChecksum : UInt32
deriving DecidableEq

/-- The constructor without arguments. -/
def CBitcoinMsgHeader.null : CBitcoinMsgHeader where
  pchMessageStart := BitcoinMessageStart
  pchCommand := [0, 1, 0, 0, 0, 0, 0, 0, 0, 0, 0, 0]
  nMessageSize := 0xffffffff
  nChecksum := 0

/-- The fields in the order of the stream. -/
def CBitcoinMsgHeader.serialize (hdr : CBitcoinMsgHeader) : List UInt8 :=
  hdr.pchMessageStart ++ (hdr.pchCommand ++
    (writeUInt32 hdr.nMessageSize ++ writeUInt32 hdr.nChecksum))

/-- `hdrbuf >> hdr`. -/
def readMsgHeader : Reader CBitcoinMsgHeader := do
  let pchMessageStart ← readBytes 4
  let pchCommand ← readBytes 12
  let nMessageSize ← readUInt32
  let nChecksum ← readUInt32
  pure ⟨pchMessageStart, pchCommand, nMessageSize, nChecksum⟩

theorem reads_readUInt32_bytes {bytes : List UInt8} (width : bytes.length = 4) :
    Reads readUInt32 bytes (UInt32.ofNat (leValue bytes)) ∧
      writeUInt32 (UInt32.ofNat (leValue bytes)) = bytes := by
  have small := leValue_lt bytes
  have written : writeUInt32 (UInt32.ofNat (leValue bytes)) = bytes := by
    rw [writeUInt32, UInt32.toNat_ofNat_of_lt' (by rwa [width] at small),
      ← width, littleEndian_leValue]
  refine ⟨?_, written⟩
  have reads := reads_readUInt32 (UInt32.ofNat (leValue bytes))
  rwa [written] at reads

theorem reads_readBytes_of_length
    {bytes : List UInt8} {width : Nat} (same : bytes.length = width) :
    Reads (readBytes width) bytes bytes := by
  rw [← same]
  exact reads_readBytes bytes

/-- Any 24 bytes are a header, which is written as these bytes again. -/
theorem readMsgHeader_eq {bytes : List UInt8} (width : bytes.length = 24) :
    ∃ hdr, readMsgHeader bytes = .ok (hdr, []) ∧ hdr.serialize = bytes := by
  have split : bytes = bytes.take 4 ++ ((bytes.drop 4).take 12 ++
      ((bytes.drop 16).take 4 ++ bytes.drop 20)) := by
    have command := List.take_append_drop 12 (bytes.drop 4)
    have size := List.take_append_drop 4 (bytes.drop 16)
    rw [List.drop_drop] at command size
    rw [size, command, List.take_append_drop]
  have size := reads_readUInt32_bytes
    (show ((bytes.drop 16).take 4).length = 4 by simp [width])
  have checksum := reads_readUInt32_bytes
    (show (bytes.drop 20).length = 4 by simp [width])
  have reads : Reads readMsgHeader
      (bytes.take 4 ++ ((bytes.drop 4).take 12 ++
        ((bytes.drop 16).take 4 ++ (bytes.drop 20 ++ [])))) _ :=
    (reads_readBytes_of_length (by simp [width])).bind
      ((reads_readBytes_of_length (by simp [width])).bind
        (size.1.bind (checksum.1.bind (Reads.pure _))))
  rw [List.append_nil, ← split] at reads
  refine ⟨_, reads.done, ?_⟩
  rw [CBitcoinMsgHeader.serialize, size.2, checksum.2, ← split]

/-! ## Messages -/

/-- `memcpy` to a position of a buffer. -/
def writeAt (buffer : List UInt8) (position : Nat) (bytes : List UInt8) :
    List UInt8 :=
  buffer.take position ++ (bytes ++ buffer.drop (position + bytes.length))

/-- `CDataStream::resize`. -/
def resize (stream : List UInt8) (size : Nat) : List UInt8 :=
  stream.take size ++ List.replicate (size - stream.length) 0

/-- `CBitcoinNetMessage`. -/
structure CBitcoinNetMessage where
  in_data : Bool
  hdrbuf : List UInt8
  hdr : CBitcoinMsgHeader
  nHdrPos : Nat
  vRecv : List UInt8
  nDataPos : Nat
deriving DecidableEq

/-- The constructor. -/
def CBitcoinNetMessage.new : CBitcoinNetMessage where
  in_data := false
  hdrbuf := resize [] 24
  hdr := .null
  nHdrPos := 0
  vRecv := []
  nDataPos := 0

/-- `CBitcoinNetMessage::complete`. -/
def CBitcoinNetMessage.complete (msg : CBitcoinNetMessage) : Bool :=
  msg.in_data && msg.hdr.nMessageSize.toNat == msg.nDataPos

/-- The copy of `readHeader`. -/
def CBitcoinNetMessage.copyHeader (msg : CBitcoinNetMessage)
    (pch : List UInt8) (nCopy : Nat) : CBitcoinNetMessage :=
  { msg with
    hdrbuf := writeAt msg.hdrbuf msg.nHdrPos (pch.take nCopy)
    nHdrPos := msg.nHdrPos + nCopy }

/-- What `readHeader` does with a full header, `none` for a negative result. -/
def CBitcoinNetMessage.parseHeader (msg : CBitcoinNetMessage) (nCopy : Nat) :
    CBitcoinNetMessage × Option Nat :=
  match readMsgHeader msg.hdrbuf with
  | .error _ => (msg, none)
  | .ok (hdr, rest) =>
      let parsed := { msg with hdrbuf := rest, hdr := hdr }
      if MAX_SIZE < hdr.nMessageSize.toNat then (parsed, none)
      else
        ({ parsed with
            in_data := true
            vRecv := resize msg.vRecv hdr.nMessageSize.toNat },
          some nCopy)

/-- `CBitcoinNetMessage::readHeader`. -/
def CBitcoinNetMessage.readHeader (msg : CBitcoinNetMessage)
    (pch : List UInt8) : CBitcoinNetMessage × Option Nat :=
  let nCopy := min (24 - msg.nHdrPos) pch.length
  let copied := msg.copyHeader pch nCopy
  if copied.nHdrPos < 24 then (copied, some nCopy)
  else copied.parseHeader nCopy

/-- The copy of `readData`. -/
def CBitcoinNetMessage.copyData (msg : CBitcoinNetMessage)
    (pch : List UInt8) (nCopy : Nat) : CBitcoinNetMessage :=
  { msg with
    vRecv := writeAt msg.vRecv msg.nDataPos (pch.take nCopy)
    nDataPos := msg.nDataPos + nCopy }

/-- `CBitcoinNetMessage::readData`. -/
def CBitcoinNetMessage.readData (msg : CBitcoinNetMessage)
    (pch : List UInt8) : CBitcoinNetMessage × Option Nat :=
  let nCopy := min (msg.hdr.nMessageSize.toNat - msg.nDataPos) pch.length
  (msg.copyData pch nCopy, some nCopy)

/-- The call for the part that a message is in. -/
def CBitcoinNetMessage.read (msg : CBitcoinNetMessage) (pch : List UInt8) :
    CBitcoinNetMessage × Option Nat :=
  if msg.in_data then msg.readData pch else msg.readHeader pch

/-! ## The queue -/

/-- The messages in front of the current one, which is created if needed. -/
def current (m_recvBitcoinMsg : List CBitcoinNetMessage) :
    List CBitcoinNetMessage × CBitcoinNetMessage :=
  match m_recvBitcoinMsg.getLast? with
  | none => ([], .new)
  | some back =>
      if back.complete then (m_recvBitcoinMsg, .new)
      else (m_recvBitcoinMsg.dropLast, back)

/-- An iteration of `ReceiveMsgBytes`, with the queue of a failure. -/
def absorb (m_recvBitcoinMsg : List CBitcoinNetMessage) (pch : List UInt8) :
    Except (List CBitcoinNetMessage) (List CBitcoinNetMessage × Nat) :=
  let (earlier, msg) := current m_recvBitcoinMsg
  match msg.read pch with
  | (next, none) => .error (earlier ++ [next])
  | (next, some handled) => .ok (earlier ++ [next], handled)

/-- `CBitcoinNode::ReceiveMsgBytes`, with the queue that it leaves. -/
def receiveMsgBytes (m_recvBitcoinMsg : List CBitcoinNetMessage)
    (pch : List UInt8) :
    Option (Except (List CBitcoinNetMessage) (List CBitcoinNetMessage)) :=
  Chunks.consume absorb m_recvBitcoinMsg pch

/-- Calls of `ReceiveMsgBytes` for packet after packet, up to a failure. -/
def receivePackets (m_recvBitcoinMsg : List CBitcoinNetMessage)
    (packets : List (List UInt8)) :
    Option (Except (List CBitcoinNetMessage) (List CBitcoinNetMessage)) :=
  Chunks.consumeAll absorb m_recvBitcoinMsg packets

/-! ## Copies to a buffer -/

variable {buffer bytes rest : List UInt8} {position : Nat} {byte : UInt8}
  {msg next : CBitcoinNetMessage} {queue : List CBitcoinNetMessage}

theorem length_writeAt (inside : position + bytes.length ≤ buffer.length) :
    (writeAt buffer position bytes).length = buffer.length := by
  simp only [writeAt, List.length_append, List.length_take, List.length_drop]
  omega

theorem length_front_writeAt (inside : position ≤ buffer.length) :
    (buffer.take position ++ bytes).length = position + bytes.length := by
  simp only [List.length_append, List.length_take]
  omega

theorem take_writeAt (inside : position ≤ buffer.length) :
    (writeAt buffer position bytes).take (position + bytes.length) =
      buffer.take position ++ bytes := by
  rw [writeAt, ← List.append_assoc, ← length_front_writeAt inside,
    List.take_left]

theorem drop_writeAt (inside : position ≤ buffer.length) (further : Nat) :
    (writeAt buffer position bytes).drop (position + bytes.length + further) =
      buffer.drop (position + bytes.length + further) := by
  rw [writeAt, ← List.append_assoc, ← List.drop_drop,
    ← length_front_writeAt inside, List.drop_left, List.drop_drop,
    length_front_writeAt inside]

/-- A copy is a copy of its first byte and one of the bytes behind. -/
theorem writeAt_cons (inside : position < buffer.length) :
    writeAt buffer position (byte :: bytes) =
      writeAt (writeAt buffer position [byte]) (position + 1) bytes := by
  have front := @take_writeAt buffer [byte] position inside.le
  have back := @drop_writeAt buffer [byte] position inside.le
    bytes.length
  rw [List.length_singleton] at front back
  rw [writeAt, writeAt, front, back, List.length_cons,
    Nat.add_comm bytes.length 1, ← Nat.add_assoc]
  simp only [List.append_assoc, List.cons_append, List.nil_append]

/-! ## The bytes of a message -/

/-- The bytes that a message is made of so far. -/
def CBitcoinNetMessage.received (msg : CBitcoinNetMessage) : List UInt8 :=
  if msg.nHdrPos < 24 then msg.hdrbuf.take msg.nHdrPos
  else msg.hdr.serialize ++ msg.vRecv.take msg.nDataPos

/-- The bytes that the part of a message still lacks. -/
def CBitcoinNetMessage.nRemaining (msg : CBitcoinNetMessage) : Nat :=
  if msg.in_data then msg.hdr.nMessageSize.toNat - msg.nDataPos
  else 24 - msg.nHdrPos

/-- The positions of a message stand inside its buffers. -/
structure Sound (msg : CBitcoinNetMessage) : Prop where
  header :
    msg.in_data = false →
      msg.nHdrPos < 24 ∧ msg.hdrbuf.length = 24 ∧ msg.vRecv = [] ∧
        msg.nDataPos = 0
  data :
    msg.in_data = true →
      msg.nHdrPos = 24 ∧ msg.vRecv.length = msg.hdr.nMessageSize.toNat ∧
        msg.nDataPos ≤ msg.hdr.nMessageSize.toNat ∧
        msg.hdr.nMessageSize.toNat ≤ MAX_SIZE

theorem sound_new : Sound .new :=
  ⟨fun _ => ⟨by decide, rfl, rfl, rfl⟩, nofun⟩

theorem received_new : CBitcoinNetMessage.new.received = [] := rfl

theorem nRemaining_pos (sound : Sound msg) (partly : msg.complete = false) :
    0 < msg.nRemaining := by
  rw [CBitcoinNetMessage.complete] at partly
  rw [CBitcoinNetMessage.nRemaining]
  cases part : msg.in_data with
  | false =>
      have inside := sound.header part
      rw [if_neg Bool.false_ne_true]
      omega
  | true =>
      have inside := sound.data part
      rw [part, Bool.true_and, beq_eq_false_iff_ne] at partly
      rw [if_pos rfl]
      omega

/-- Behind the last byte of a part the packet does not matter. -/
theorem read_last (last : msg.nRemaining = 1) (rest : List UInt8) :
    msg.read (byte :: rest) = msg.read [byte] := by
  have single : min 1 (byte :: rest).length = min 1 [byte].length := by simp
  rw [CBitcoinNetMessage.nRemaining] at last
  rw [CBitcoinNetMessage.read, CBitcoinNetMessage.read]
  split_ifs at last ⊢ with part
  · rw [CBitcoinNetMessage.readData, CBitcoinNetMessage.readData, last, single]
    rfl
  · rw [CBitcoinNetMessage.readHeader, CBitcoinNetMessage.readHeader, last,
      single]
    rfl

/-- The message after a byte that is not the last one of its part. -/
def CBitcoinNetMessage.push (msg : CBitcoinNetMessage) (byte : UInt8) :
    CBitcoinNetMessage :=
  if msg.in_data then msg.copyData [byte] 1 else msg.copyHeader [byte] 1

theorem copyHeader_succ (inside : msg.nHdrPos < msg.hdrbuf.length) (nCopy : Nat) :
    msg.copyHeader (byte :: rest) (nCopy + 1) =
      (msg.copyHeader [byte] 1).copyHeader rest nCopy := by
  rw [CBitcoinNetMessage.copyHeader, CBitcoinNetMessage.copyHeader,
    CBitcoinNetMessage.copyHeader, List.take_succ_cons, writeAt_cons inside,
    Nat.add_comm nCopy, ← Nat.add_assoc]
  rfl

theorem copyData_succ (inside : msg.nDataPos < msg.vRecv.length) (nCopy : Nat) :
    msg.copyData (byte :: rest) (nCopy + 1) =
      (msg.copyData [byte] 1).copyData rest nCopy := by
  rw [CBitcoinNetMessage.copyData, CBitcoinNetMessage.copyData,
    CBitcoinNetMessage.copyData, List.take_succ_cons, writeAt_cons inside,
    Nat.add_comm nCopy, ← Nat.add_assoc]
  rfl

theorem parseHeader_succ (nCopy : Nat) :
    msg.parseHeader (nCopy + 1) =
      ((msg.parseHeader nCopy).1,
        (msg.parseHeader nCopy).2.map fun handled => handled + 1) := by
  rw [CBitcoinNetMessage.parseHeader, CBitcoinNetMessage.parseHeader]
  split
  · rfl
  · dsimp only
    split_ifs <;> rfl

/-- A byte of payload. -/
theorem copyData_byte
    (sound : Sound msg) (part : msg.in_data = true)
    (room : msg.nDataPos < msg.hdr.nMessageSize.toNat) :
    Sound (msg.copyData [byte] 1) ∧
      (msg.copyData [byte] 1).received = msg.received ++ [byte] := by
  have inside := sound.data part
  have fits : msg.nDataPos + [byte].length ≤ msg.vRecv.length := by
    rw [List.length_singleton]
    omega
  have front := @take_writeAt msg.vRecv [byte] msg.nDataPos (by omega)
  refine ⟨⟨fun header => ?_, fun _ => ⟨inside.1, ?_, room, inside.2.2.2⟩⟩, ?_⟩
  · exact absurd part (Bool.eq_false_iff.mp header)
  · exact (length_writeAt fits).trans inside.2.1
  · have full : ¬ msg.nHdrPos < 24 := by omega
    have same : ¬ (msg.copyData [byte] 1).nHdrPos < 24 := full
    rw [CBitcoinNetMessage.received, CBitcoinNetMessage.received, if_neg same,
      if_neg full, List.append_assoc, ← front]
    rfl

theorem sound_push (sound : Sound msg) (more : 1 < msg.nRemaining) :
    Sound (msg.push byte) ∧ (msg.push byte).complete = false ∧
      (msg.push byte).received = msg.received ++ [byte] := by
  rw [CBitcoinNetMessage.nRemaining] at more
  rw [CBitcoinNetMessage.push]
  split_ifs at more ⊢ with part
  · rcases @copyData_byte byte msg sound part (by omega) with ⟨kept, taken⟩
    refine ⟨kept, ?_, taken⟩
    show (msg.in_data && _ == msg.nDataPos + 1) = false
    rw [part, Bool.true_and, beq_eq_false_iff_ne]
    show msg.hdr.nMessageSize.toNat ≠ msg.nDataPos + 1
    omega
  · have header := Bool.eq_false_iff.mpr part
    have inside := sound.header header
    have fits : msg.nHdrPos + [byte].length ≤ msg.hdrbuf.length := by
      rw [List.length_singleton]
      omega
    have front := @take_writeAt msg.hdrbuf [byte] msg.nHdrPos (by omega)
    refine ⟨⟨fun _ => ⟨?_, ?_, inside.2.2⟩, fun data => absurd data part⟩,
      ?_, ?_⟩
    · show msg.nHdrPos + 1 < 24
      omega
    · exact (length_writeAt fits).trans inside.2.1
    · show (msg.in_data && _) = false
      rw [header, Bool.false_and]
    · have short : (msg.copyHeader [byte] 1).nHdrPos < 24 := by
        show msg.nHdrPos + 1 < 24
        omega
      rw [CBitcoinNetMessage.received, CBitcoinNetMessage.received,
        if_pos short, if_pos inside.1, ← front]
      rfl

/-- The last byte of a header: it is parsed, and rejected by its size alone. -/
theorem readHeader_last
    (sound : Sound msg) (part : msg.in_data = false) (last : msg.nHdrPos = 23) :
    ∃ next, next.received = msg.received ++ [byte] ∧
      (msg.readHeader [byte] = (next, some 1) ∧ Sound next ∨
        msg.readHeader [byte] = (next, none) ∧
          MAX_SIZE < next.hdr.nMessageSize.toNat) := by
  have inside := sound.header part
  have buffer : (msg.copyHeader [byte] 1).hdrbuf =
      msg.hdrbuf.take 23 ++ [byte] := by
    show writeAt msg.hdrbuf msg.nHdrPos [byte] = _
    rw [writeAt, last, List.drop_of_length_le (by rw [inside.2.1]; simp)]
    rfl
  have width : (msg.copyHeader [byte] 1).hdrbuf.length = 24 := by
    rw [buffer, List.length_append, List.length_take, inside.2.1]
    rfl
  rcases readMsgHeader_eq width with ⟨hdr, parsed, written⟩
  have full : ¬ (msg.copyHeader [byte] 1).nHdrPos < 24 := by
    show ¬ msg.nHdrPos + 1 < 24
    omega
  have single : min (24 - msg.nHdrPos) [byte].length = 1 := by
    rw [last]
    rfl
  have result : msg.readHeader [byte] =
      (msg.copyHeader [byte] 1).parseHeader 1 := by
    rw [CBitcoinNetMessage.readHeader, single]
    exact if_neg full
  have before : msg.received ++ [byte] = hdr.serialize := by
    rw [CBitcoinNetMessage.received, if_pos inside.1, last, written, buffer]
  rw [result, CBitcoinNetMessage.parseHeader, parsed, before]
  by_cases large : MAX_SIZE < hdr.nMessageSize.toNat
  · refine ⟨{ msg.copyHeader [byte] 1 with hdrbuf := [], hdr := hdr }, ?_,
      Or.inr ⟨if_pos large, large⟩⟩
    refine (if_neg full).trans ?_
    show _ ++ msg.vRecv.take msg.nDataPos = _
    rw [inside.2.2.2, List.take_zero, List.append_nil]
  · refine ⟨_, ?_, Or.inl ⟨if_neg large, ?_⟩⟩
    · refine (if_neg full).trans ?_
      show _ ++ List.take msg.nDataPos _ = _
      rw [inside.2.2.2, List.take_zero, List.append_nil]
    · refine ⟨nofun, fun _ => ⟨?_, ?_, ?_, not_lt.mp large⟩⟩
      · show msg.nHdrPos + 1 = 24
        rw [last]
      · show (resize msg.vRecv _).length = _
        rw [inside.2.2.1, resize, List.take_nil, List.nil_append,
          List.length_replicate]
        rfl
      · show msg.nDataPos ≤ _
        omega

/-- The last byte of a part. -/
theorem read_last_byte
    (sound : Sound msg) (last : msg.nRemaining = 1) :
    ∃ next, next.received = msg.received ++ [byte] ∧
      (msg.read [byte] = (next, some 1) ∧ Sound next ∨
        msg.read [byte] = (next, none) ∧
          MAX_SIZE < next.hdr.nMessageSize.toNat) := by
  rw [CBitcoinNetMessage.nRemaining] at last
  rw [CBitcoinNetMessage.read]
  split_ifs at last ⊢ with part
  · rcases @copyData_byte byte msg sound part (by omega) with ⟨kept, taken⟩
    refine ⟨_, taken, Or.inl ⟨?_, kept⟩⟩
    rw [CBitcoinNetMessage.readData, last]
    rfl
  · exact readHeader_last sound (Bool.eq_false_iff.mpr part) (by omega)

theorem read_push (more : 1 < msg.nRemaining) :
    msg.read [byte] = (msg.push byte, some 1) := by
  rw [CBitcoinNetMessage.nRemaining] at more
  rw [CBitcoinNetMessage.read, CBitcoinNetMessage.push]
  split_ifs at more ⊢ with part
  · rw [CBitcoinNetMessage.readData, List.length_singleton,
      Nat.min_eq_right more.le]
  · rw [CBitcoinNetMessage.readHeader, List.length_singleton,
      Nat.min_eq_right more.le]
    exact if_pos (show msg.nHdrPos + 1 < 24 by omega)

/-- Further bytes of a packet are read as if they had come later. -/
theorem read_join
    (sound : Sound msg) (more : 1 < msg.nRemaining) (rest : List UInt8) :
    msg.read (byte :: rest) =
      (((msg.push byte).read rest).1,
        ((msg.push byte).read rest).2.map fun handled => handled + 1) := by
  rw [CBitcoinNetMessage.nRemaining] at more
  rw [CBitcoinNetMessage.read, CBitcoinNetMessage.push]
  split_ifs at more ⊢ with part
  · have inside := sound.data part
    have count : min (msg.hdr.nMessageSize.toNat - msg.nDataPos)
          (byte :: rest).length =
        min (msg.hdr.nMessageSize.toNat - (msg.nDataPos + 1)) rest.length +
          1 := by
      rw [List.length_cons]
      omega
    rw [CBitcoinNetMessage.read, if_pos (by exact part),
      CBitcoinNetMessage.readData, CBitcoinNetMessage.readData, count,
      copyData_succ (by omega)]
    rfl
  · have inside := sound.header (Bool.eq_false_iff.mpr part)
    have count : min (24 - msg.nHdrPos) (byte :: rest).length =
        min (24 - (msg.nHdrPos + 1)) rest.length + 1 := by
      rw [List.length_cons]
      omega
    rw [CBitcoinNetMessage.read, if_neg (by exact part),
      CBitcoinNetMessage.readHeader, CBitcoinNetMessage.readHeader, count,
      copyHeader_succ (by omega), parseHeader_succ]
    have position : (msg.copyHeader [byte] 1).nHdrPos = msg.nHdrPos + 1 := rfl
    rw [position]
    split_ifs <;> rfl

/-! ## The bytes of a queue -/

/-- All messages of a queue but the last one are complete. -/
structure Framed (queue : List CBitcoinNetMessage) : Prop where
  sound : ∀ msg ∈ queue, Sound msg
  complete : ∀ msg ∈ queue.dropLast, msg.complete = true

/-- The effect of one byte on a queue. -/
def feedByte (queue : List CBitcoinNetMessage) (byte : UInt8) :
    Except (List CBitcoinNetMessage) (List CBitcoinNetMessage) :=
  (absorb queue [byte]).map Prod.fst

/-- The header of the last message of a queue says too large a size. -/
def Oversized (queue : List CBitcoinNetMessage) : Prop :=
  ∃ earlier msg, queue = earlier ++ [msg] ∧
    MAX_SIZE < msg.hdr.nMessageSize.toNat

theorem framed_nil : Framed [] := ⟨nofun, nofun⟩

theorem current_open (earlier : List CBitcoinNetMessage)
    (partly : msg.complete = false) :
    current (earlier ++ [msg]) = (earlier, msg) := by
  rw [current, List.getLast?_concat, List.dropLast_concat]
  exact if_neg (Bool.eq_false_iff.mp partly)

/-- A queue whose messages but the last one are complete. -/
theorem framed_concat
    {earlier : List CBitcoinNetMessage}
    (before : ∀ other ∈ earlier, Sound other ∧ other.complete = true)
    (sound : Sound msg) : Framed (earlier ++ [msg]) := by
  constructor
  · intro other member
    rw [List.mem_append, List.mem_singleton] at member
    rcases member with inside | rfl
    · exact (before other inside).1
    · exact sound
  · intro other member
    rw [List.dropLast_concat] at member
    exact (before other member).2

/-- The current message is incomplete and everything before it complete. -/
theorem current_framed (framed : Framed queue) :
    ∃ earlier msg, current queue = (earlier, msg) ∧ Sound msg ∧
      msg.complete = false ∧
      (∀ other ∈ earlier, Sound other ∧ other.complete = true) ∧
      (earlier ++ [msg]).flatMap CBitcoinNetMessage.received =
        queue.flatMap CBitcoinNetMessage.received := by
  rcases List.eq_nil_or_concat queue with rfl | ⟨earlier, back, rfl⟩
  · exact ⟨[], .new, rfl, sound_new, rfl, nofun, rfl⟩
  · rw [List.concat_eq_append] at framed ⊢
    have complete := framed.complete
    rw [List.dropLast_concat] at complete
    have before : ∀ other ∈ earlier, Sound other ∧ other.complete = true :=
      fun other member =>
        ⟨framed.sound other (List.mem_append_left _ member),
          complete other member⟩
    have sound := framed.sound back (by simp)
    cases partly : back.complete with
    | false =>
        exact ⟨earlier, back, current_open earlier partly, sound, partly,
          before, rfl⟩
    | true =>
        refine ⟨earlier ++ [back], .new, ?_, sound_new, rfl, ?_, ?_⟩
        · rw [current, List.getLast?_concat]
          exact if_pos partly
        · intro other member
          rw [List.mem_append, List.mem_singleton] at member
          rcases member with inside | rfl
          · exact before other inside
          · exact ⟨sound, partly⟩
        · rw [List.flatMap_append, List.flatMap_singleton, received_new,
            List.append_nil]

/-- An iteration over a packet, by how much the current part still lacks. -/
theorem absorb_cases (framed : Framed queue) (byte : UInt8) :
    ∃ earlier next, (∀ other ∈ earlier, Sound other ∧ other.complete = true) ∧
      (earlier ++ [next]).flatMap CBitcoinNetMessage.received =
        queue.flatMap CBitcoinNetMessage.received ++ [byte] ∧
      ((MAX_SIZE < next.hdr.nMessageSize.toNat ∧
          ∀ rest, absorb queue (byte :: rest) = .error (earlier ++ [next])) ∨
        (Sound next ∧
          ∀ rest, absorb queue (byte :: rest) = .ok (earlier ++ [next], 1)) ∨
        (Sound next ∧ absorb queue [byte] = .ok (earlier ++ [next], 1) ∧
          ∀ rest, absorb queue (byte :: rest) =
            (absorb (earlier ++ [next]) rest).map
              fun taken => (taken.1, taken.2 + 1))) := by
  rcases current_framed framed with
    ⟨earlier, msg, isCurrent, sound, partly, before, same⟩
  have bytes : ∀ next : CBitcoinNetMessage,
      next.received = msg.received ++ [byte] →
        (earlier ++ [next]).flatMap CBitcoinNetMessage.received =
          queue.flatMap CBitcoinNetMessage.received ++ [byte] := by
    intro next more
    rw [← same, List.flatMap_append, List.flatMap_append,
      List.flatMap_singleton, List.flatMap_singleton, more, List.append_assoc]
  have lacks := nRemaining_pos sound partly
  rcases Nat.lt_or_eq_of_le (show 1 ≤ msg.nRemaining from lacks) with
    more | last
  · rcases @sound_push byte msg sound more with ⟨kept, stillOpen, taken⟩
    refine ⟨earlier, msg.push byte, before, bytes _ taken,
      Or.inr (Or.inr ⟨kept, ?_, ?_⟩)⟩
    · rw [absorb, isCurrent]
      dsimp only
      rw [read_push more]
    · intro rest
      rw [absorb, isCurrent, absorb, current_open earlier stillOpen]
      dsimp only
      rw [read_join sound more]
      rcases (msg.push byte).read rest with ⟨after, handled | handled⟩
      · rfl
      · rfl
  · rcases @read_last_byte byte msg sound last.symm with
      ⟨next, taken, ⟨result, kept⟩ | ⟨result, large⟩⟩
    · refine ⟨earlier, next, before, bytes _ taken, Or.inr (Or.inl ⟨kept, ?_⟩)⟩
      intro rest
      rw [absorb, isCurrent]
      dsimp only
      rw [read_last last.symm, result]
    · refine ⟨earlier, next, before, bytes _ taken, Or.inl ⟨large, ?_⟩⟩
      intro rest
      rw [absorb, isCurrent]
      dsimp only
      rw [read_last last.symm, result]

theorem feedByte_ok
    {after : List CBitcoinNetMessage} (framed : Framed queue)
    (fed : feedByte queue byte = .ok after) :
    Framed after ∧ after.flatMap CBitcoinNetMessage.received =
      queue.flatMap CBitcoinNetMessage.received ++ [byte] := by
  rcases absorb_cases framed byte with ⟨earlier, next, before, bytes,
    ⟨_, result⟩ | ⟨kept, result⟩ | ⟨kept, result, _⟩⟩
  · rw [feedByte, result] at fed
    cases fed
  · rw [feedByte, result] at fed
    cases fed
    exact ⟨framed_concat before kept, bytes⟩
  · rw [feedByte, result] at fed
    cases fed
    exact ⟨framed_concat before kept, bytes⟩

theorem feedByte_error
    {failed : List CBitcoinNetMessage} (framed : Framed queue)
    (fed : feedByte queue byte = .error failed) :
    Oversized failed ∧ failed.flatMap CBitcoinNetMessage.received =
      queue.flatMap CBitcoinNetMessage.received ++ [byte] := by
  rcases absorb_cases framed byte with ⟨earlier, next, before, bytes,
    ⟨large, result⟩ | ⟨_, result⟩ | ⟨_, result, _⟩⟩
  · rw [feedByte, result] at fed
    cases fed
    exact ⟨⟨earlier, next, rfl, large⟩, bytes⟩
  · rw [feedByte, result] at fed
    cases fed
  · rw [feedByte, result] at fed
    cases fed

/-- An iteration over a packet has the effect of its bytes one by one. -/
theorem itemwise_absorb : Chunks.Itemwise feedByte absorb Framed where
  kept _ _ _ framed fed := (feedByte_ok framed fed).1
  fails queue byte failed framed fed rest := by
    rcases absorb_cases framed byte with ⟨earlier, next, before, bytes,
      ⟨_, result⟩ | ⟨_, result⟩ | ⟨_, result, _⟩⟩
    · rw [feedByte, result] at fed
      cases fed
      exact result rest
    · rw [feedByte, result] at fed
      cases fed
    · rw [feedByte, result] at fed
      cases fed
  piece queue byte after framed fed rest := by
    rcases absorb_cases framed byte with ⟨earlier, next, before, bytes,
      ⟨_, result⟩ | ⟨_, result⟩ | ⟨_, result, joined⟩⟩
    · rw [feedByte, result] at fed
      cases fed
    · rw [feedByte, result] at fed
      cases fed
      exact Or.inl (result rest)
    · rw [feedByte, result] at fed
      cases fed
      by_cases empty : rest = []
      · rw [empty]
        exact Or.inl result
      · exact Or.inr ⟨empty, joined rest⟩

/-! ## Streams -/

/-- The queues of a node: packets are received, parsed messages taken off. -/
inductive Reachable : List CBitcoinNetMessage → Prop
  | empty : Reachable []
  | receive {queue after : List CBitcoinNetMessage} (pch : List UInt8) :
      Reachable queue → receiveMsgBytes queue pch = some (.ok after) →
        Reachable after
  | erase {queue : List CBitcoinNetMessage} (parsed : Nat) :
      Reachable queue → Reachable (queue.drop parsed)

variable {stream : List UInt8}

theorem foldlM_feedByte_ok
    {after : List CBitcoinNetMessage} (framed : Framed queue)
    (fed : stream.foldlM feedByte queue = .ok after) :
    Framed after ∧ after.flatMap CBitcoinNetMessage.received =
      queue.flatMap CBitcoinNetMessage.received ++ stream := by
  induction stream generalizing queue with
  | nil =>
      cases fed
      exact ⟨framed, (List.append_nil _).symm⟩
  | cons byte stream inductionHypothesis =>
      rw [List.foldlM_cons] at fed
      cases first : feedByte queue byte with
      | error failed =>
          rw [first] at fed
          cases fed
      | ok middle =>
          rw [first] at fed
          rcases feedByte_ok framed first with ⟨kept, taken⟩
          rcases inductionHypothesis kept fed with ⟨atEnd, later⟩
          refine ⟨atEnd, ?_⟩
          rw [later, taken, List.append_assoc, List.singleton_append]

/-- A failure is at a message that says too large a size. -/
theorem foldlM_feedByte_error
    {failed : List CBitcoinNetMessage} (framed : Framed queue)
    (fed : stream.foldlM feedByte queue = .error failed) :
    Oversized failed ∧ ∃ unread,
      failed.flatMap CBitcoinNetMessage.received ++ unread =
        queue.flatMap CBitcoinNetMessage.received ++ stream := by
  induction stream generalizing queue with
  | nil => cases fed
  | cons byte stream inductionHypothesis =>
      rw [List.foldlM_cons] at fed
      cases first : feedByte queue byte with
      | error other =>
          rw [first] at fed
          cases fed
          rcases feedByte_error framed first with ⟨large, taken⟩
          refine ⟨large, stream, ?_⟩
          rw [taken, List.append_assoc, List.singleton_append]
      | ok middle =>
          rw [first] at fed
          rcases feedByte_ok framed first with ⟨kept, taken⟩
          rcases inductionHypothesis kept fed with ⟨large, unread, later⟩
          refine ⟨large, unread, ?_⟩
          rw [later, taken, List.append_assoc, List.singleton_append]

theorem framed_drop (framed : Framed queue) (parsed : Nat) :
    Framed (queue.drop parsed) := by
  constructor
  · intro msg member
    exact framed.sound msg (List.mem_of_mem_drop member)
  · intro msg member
    rw [List.dropLast_drop_eq_drop_dropLast] at member
    exact framed.complete msg (List.mem_of_mem_drop member)

theorem Reachable.framed (reachable : Reachable queue) : Framed queue := by
  induction reachable with
  | empty => exact framed_nil
  | receive pch _ received framed =>
      rw [receiveMsgBytes, Chunks.consume_eq itemwise_absorb framed,
        Option.some.injEq] at received
      exact (foldlM_feedByte_ok framed received).1
  | erase parsed _ framed => exact framed_drop framed parsed

/-! ## Erased messages -/

/-- Complete messages in front of a queue do not matter to what it receives. -/
theorem current_append
    {erased : List CBitcoinNetMessage}
    (complete : ∀ msg ∈ erased, msg.complete = true) :
    current (erased ++ queue) =
      (erased ++ (current queue).1, (current queue).2) := by
  rcases List.eq_nil_or_concat queue with rfl | ⟨earlier, back, rfl⟩
  · rcases List.eq_nil_or_concat erased with rfl | ⟨front, last, rfl⟩
    · rfl
    · rw [List.concat_eq_append] at complete ⊢
      rw [List.append_nil, current, List.getLast?_concat]
      exact (if_pos (complete last (by simp))).trans (by simp [current])
  · rw [List.concat_eq_append, ← List.append_assoc, current,
      List.getLast?_concat, List.dropLast_concat, current,
      List.getLast?_concat, List.dropLast_concat]
    dsimp only
    split_ifs
    · rw [List.append_assoc]
    · rfl

theorem feedByte_append
    {erased after : List CBitcoinNetMessage}
    (complete : ∀ msg ∈ erased, msg.complete = true)
    (fed : feedByte queue byte = .ok after) :
    feedByte (erased ++ queue) byte = .ok (erased ++ after) := by
  rw [feedByte, absorb] at fed ⊢
  rw [current_append complete]
  dsimp only at fed ⊢
  rcases result : (current queue).2.read [byte] with ⟨next, handled | handled⟩
  · rw [result] at fed
    cases fed
  · rw [result] at fed
    cases fed
    dsimp only
    rw [List.append_assoc]
    rfl

theorem foldlM_feedByte_append
    {erased after : List CBitcoinNetMessage}
    (complete : ∀ msg ∈ erased, msg.complete = true)
    (fed : stream.foldlM feedByte queue = .ok after) :
    stream.foldlM feedByte (erased ++ queue) = .ok (erased ++ after) := by
  induction stream generalizing queue with
  | nil =>
      cases fed
      rfl
  | cons byte stream inductionHypothesis =>
      rw [List.foldlM_cons] at fed ⊢
      cases first : feedByte queue byte with
      | error failed =>
          rw [first] at fed
          cases fed
      | ok middle =>
          rw [first] at fed
          rw [feedByte_append complete first]
          exact inductionHypothesis fed

/--
When the messages that were erased were complete, the queue is what is left
of the messages of the whole stream.
-/
theorem receiveMsgBytes_append
    {erased after : List CBitcoinNetMessage} {pch : List UInt8}
    (complete : ∀ msg ∈ erased, msg.complete = true)
    (earlier : receiveMsgBytes [] stream = some (.ok (erased ++ queue)))
    (received : receiveMsgBytes queue pch = some (.ok after)) :
    receiveMsgBytes [] (stream ++ pch) = some (.ok (erased ++ after)) := by
  have whole := Chunks.consume_eq itemwise_absorb framed_nil
  rw [receiveMsgBytes, whole, Option.some.injEq] at earlier
  have framed := (foldlM_feedByte_ok framed_nil earlier).1
  have kept := framed_drop framed erased.length
  rw [List.drop_left] at kept
  rw [receiveMsgBytes, Chunks.consume_eq itemwise_absorb kept,
    Option.some.injEq] at received
  rw [receiveMsgBytes, whole, List.foldlM_append, earlier]
  exact congrArg some (foldlM_feedByte_append complete received)

/-- An iteration takes some of the bytes of a packet, and all that it takes. -/
theorem absorb_taken
    {pch : List UInt8} {after : List CBitcoinNetMessage} {handled : Nat}
    (framed : Framed queue) (nonempty : pch ≠ [])
    (absorbed : absorb queue pch = .ok (after, handled)) :
    0 < handled ∧ handled ≤ pch.length ∧
      after.flatMap CBitcoinNetMessage.received =
        queue.flatMap CBitcoinNetMessage.received ++ pch.take handled := by
  rcases itemwise_absorb.absorb_eq framed nonempty with
    ⟨taken, left, rfl, some', result⟩
  rw [result] at absorbed
  cases folded : taken.foldlM feedByte queue with
  | error failed =>
      rw [folded] at absorbed
      cases absorbed
  | ok next =>
      rw [folded] at absorbed
      cases absorbed
      refine ⟨List.length_pos_iff.mpr some', by simp, ?_⟩
      rw [(foldlM_feedByte_ok framed folded).2, List.take_left]

/--
The queue after a stream does not depend on its packets: whatever the cuts,
every call ends, and either the headers and payloads of the queue are the
bytes received, or the same message fails.  An iteration takes at least one
byte, and the bytes that it takes are those that the messages gain.
-/
theorem receivePackets_eq
    (reachable : Reachable queue) {first second : List (List UInt8)}
    (same : first.flatten = second.flatten) :
    (∃ outcome, receivePackets queue first = some outcome ∧
      receivePackets queue second = some outcome ∧
      (∀ after, outcome = .ok after →
        after.flatMap CBitcoinNetMessage.received =
          queue.flatMap CBitcoinNetMessage.received ++ first.flatten ∧
        ∀ msg ∈ after.dropLast, msg.complete = true) ∧
      (∀ failed, outcome = .error failed → Oversized failed ∧ ∃ unread,
        failed.flatMap CBitcoinNetMessage.received ++ unread =
          queue.flatMap CBitcoinNetMessage.received ++ first.flatten)) ∧
    (∀ pch, ∃ outcome, receiveMsgBytes queue pch = some outcome) ∧
    (∀ pch after handled, pch ≠ [] →
      absorb queue pch = .ok (after, handled) →
        0 < handled ∧ handled ≤ pch.length ∧
          after.flatMap CBitcoinNetMessage.received =
            queue.flatMap CBitcoinNetMessage.received ++ pch.take handled) := by
  have framed := reachable.framed
  refine ⟨⟨first.flatten.foldlM feedByte queue, ?_, ?_, ?_, ?_⟩, ?_, ?_⟩
  · exact Chunks.consumeAll_eq itemwise_absorb framed first
  · rw [same]
    exact Chunks.consumeAll_eq itemwise_absorb framed second
  · intro after fed
    rcases foldlM_feedByte_ok framed fed with ⟨kept, bytes⟩
    exact ⟨bytes, kept.complete⟩
  · intro failed fed
    exact foldlM_feedByte_error framed fed
  · intro pch
    exact ⟨_, Chunks.consume_eq itemwise_absorb framed pch⟩
  · intro pch after handled nonempty absorbed
    exact absorb_taken framed nonempty absorbed

/-- A header without payload and the first byte of the next one. -/
theorem receivePackets_eq_short :
    receivePackets [] [[0xF9, 0xBE], List.replicate 22 0 ++ [0xF9]] =
      receivePackets [] [[0xF9, 0xBE] ++ List.replicate 22 0, [0xF9]] := by
  have same : ([[0xF9, 0xBE], List.replicate 22 0 ++ [0xF9]] :
      List (List UInt8)).flatten =
        [[0xF9, 0xBE] ++ List.replicate 22 0, [0xF9]].flatten := rfl
  rcases (receivePackets_eq .empty same).1 with ⟨outcome, first, second, -⟩
  rw [first, second]

end DSValue.Bitcoin.MessageFraming
