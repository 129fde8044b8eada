import Mathlib.Algebra.Order.Group.Int
import ActorNet.Lib.InputStream
import ActorNet.Rpc.Buffer
import ActorNet.Rpc.Negotiation

/-!
# Frames: the send loop and the read loops

A call is marshalled behind 28 reserved bytes, which become the request header
with a timeout field, or lose their first eight bytes when timeouts were not
negotiated; the compressor then puts four bytes of its own in front. The read
loops undo this on whatever pieces the transport delivers.
-/

namespace ActorNet.Rpc

open Lib

/-! ## Time -/

/-- `rpc_clock_type`: how many ticks make a millisecond, and the last time
point. -/
structure Clock where
  ticksPerMs : Nat
  max : Int
  positive : 0 < ticksPerMs

/-- A point in time after the clock's epoch, counted in ticks; the epoch itself
is `time_point()`. -/
abbrev TimePoint := Fin (2 ^ 63)

/-- `duration_cast<milliseconds>(expire - now).count()`, as stored in a
`uint64_t`. -/
def millisecondsLeft (clock : Clock) (expire now : TimePoint) : BitVec 64 :=
  BitVec.ofInt 64 (Int.tdiv ((expire.val : Int) - now.val) clock.ticksPerMs)

/-- `relative_timeout_to_absolute`. -/
def relativeTimeoutToAbsolute (clock : Clock) (now : TimePoint) (relative : Int) : Int :=
  now.val + min relative (clock.max - now.val)

/-! ## Compression -/

/-- `rpc::compressor`; `none` is an exception. -/
structure Codec where
  compress : (headSpace : Nat) → SndBuf → Option SndBuf
  decompress : RcvBuf → Option RcvBuf

/-- What is asked of a compressor: it leaves the requested space in front, in
one piece, and its output without that space decompresses to its input. -/
structure Codec.Inverse (c : Codec) : Prop where
  headSpace : ∀ {n b head body out}, b.Holds head body → c.compress n b = some out →
    ∃ space data, space.length = n ∧ out.Holds space data
  inverse : ∀ {n b head body out space data r}, b.Holds head body →
    c.compress n b = some out → space.length = n → out.Holds space data →
    r.content = data → ∃ r', c.decompress r = some r' ∧ r'.content = head ++ body

/-! ## Sending -/

/-- What a call hands to `send_helper`. -/
structure Call where
  verb : BitVec 64
  msgId : BitVec 64
  args : List Byte
  timeout : Option TimePoint
  uninit : Nat → Byte

/-- `send_helper`: the marshalled call with everything in its header but the
time left. -/
def sendHelper (c : Call) : SndBuf :=
  let data := marshall 28 c.uninit c.args
  let payload := data.size - 28#32
  ((data.writeFront 8 (toBytesLE 8 c.verb.toNat)).writeFront 16 (toBytesLE 8 c.msgId.toNat)
    ).writeFront 24 (toBytesLE 4 payload.toNat)

/-- `outgoing_entry`. The timer that was never armed expires at `time_point()`. -/
structure OutgoingEntry where
  buf : SndBuf
  expire : TimePoint

def OutgoingEntry.ofCall (c : Call) : OutgoingEntry := ⟨sendHelper c, c.timeout.getD 0⟩

/-- The `left` of `send_loop`: an entry that never expires has zero left. -/
def OutgoingEntry.left (clock : Clock) (d : OutgoingEntry) (now : TimePoint) : BitVec 64 :=
  if d.expire ≠ 0 then millisecondsLeft clock d.expire now else 0#64

/-- `outgoing_queue_type`. -/
inductive OutgoingQueueType
  | request
  | response
  deriving DecidableEq, Repr

section

variable (clock : Clock) (codecs : Compressor → Codec) (link : Link)

/-- `connection::compress`. -/
def compress (buf : SndBuf) : Option SndBuf :=
  match link.compressor with
  | some c => do
      let buf ← (codecs c).compress 4 buf
      some (buf.writeFront 0 (toBytesLE 4 (buf.size - 4#32).toNat))
  | none => some buf

/-- The buffer `send_loop` writes for an entry it takes at `now`. -/
def outgoingBuffer (kind : OutgoingQueueType) (now : TimePoint) (d : OutgoingEntry) :
    Option SndBuf :=
  let buf := match kind with
    | .request =>
        if link.timeoutNegotiated then
          d.buf.writeFront 0 (toBytesLE 8 (d.left clock now).toNat)
        else d.buf.trimFront 8
    | .response => d.buf
  compress codecs link buf

/-- The bytes written for a list of entries, up to the first that fails. -/
def writeLoop {ε : Type} (write : ε → Option SndBuf) : List ε → List Byte
  | [] => []
  | e :: es =>
      match write e with
      | some buf => buf.content ++ writeLoop write es
      | none => []

/-- The bytes `send_loop` writes for the entries it takes, each with the clock
reading at that moment. A compressor that throws ends the loop. -/
def sendLoop (kind : OutgoingQueueType) : List (OutgoingEntry × TimePoint) → List Byte :=
  writeLoop fun d => outgoingBuffer clock codecs link kind d.2 d.1

end

/-! ## Replies -/

/-- What the server answers: `reply` and `send_unknown_verb_reply`. -/
inductive Answer
  | value (payload : List Byte)
  | userException (what : List Byte)
  | unknownVerb (type : BitVec 64)
  deriving DecidableEq, Repr

/-- The bytes behind the header of a response. -/
def Answer.payload : Answer → List Byte
  | value payload => payload
  | userException what => toBytesLE 4 0 ++ toBytesLE 4 what.length ++ what
  | unknownVerb type => toBytesLE 4 1 ++ toBytesLE 4 8 ++ toBytesLE 8 type.toNat

/-- Exceptions are sent under the negated message id. -/
def Answer.wireId (msgId : BitVec 64) : Answer → BitVec 64
  | value _ => msgId
  | userException _ => -msgId
  | unknownVerb _ => -msgId

/-- `server::connection::respond`. -/
def respond (msgId : BitVec 64) (data : SndBuf) : SndBuf :=
  (data.writeFront 0 (toBytesLE 8 msgId.toNat)).writeFront 8
    (toBytesLE 4 (data.size - 12#32).toNat)

/-- A reply to be sent, with what its buffer contained when allocated. -/
structure Reply where
  msgId : BitVec 64
  answer : Answer
  uninit : Nat → Byte

def OutgoingEntry.ofReply (r : Reply) : OutgoingEntry :=
  ⟨respond (r.answer.wireId r.msgId) (marshall 12 r.uninit r.answer.payload), 0⟩

/-! ## Reading frames -/

section

variable {σ : Type} [InputStream Byte σ]

/-- The `repeat` of `read_rcv_buf`: the buffers read, and what was left to read
when the stream ended. -/
def readRest (left : Nat) (s : σ) : List (List Byte) × Nat × σ :=
  let (data, s') := InputStream.readUpTo left s
  if data = [] then ([], left, s')
  else if left - data.length = 0 then ([data], 0, s')
  else
    let (v, stillLeft, s'') := readRest (left - data.length) s'
    (data :: v, stillLeft, s'')
termination_by left
decreasing_by
  have := List.length_pos_iff.mpr ‹¬ _ = []›
  omega

/-- `read_rcv_buf`. -/
def readRcvBuf (size : BitVec 32) (s : σ) : RcvBuf × σ :=
  let (data, s') := InputStream.readUpTo size.toNat s
  if data = [] then (RcvBuf.empty, s')
  else if data.length = size.toNat then (⟨size, [data]⟩, s')
  else
    let (v, left, s'') := readRest (size.toNat - data.length) s'
    (⟨size - BitVec.ofNat 32 left, data :: v⟩, s'')

/-- A `FrameType` parameter of `read_frame`. -/
structure FrameType (Header Value : Type) where
  headerSize : Nat
  decodeHeader : List Byte → Header
  getSize : Header → BitVec 32
  makeValue : Header → RcvBuf → Value
  emptyValue : Value

variable {Header Value : Type}

/-- `connection::read_frame`. -/
def readFrame (F : FrameType Header Value) (s : σ) : Value × σ :=
  let (header, s') := InputStream.readExactly F.headerSize s
  if header.length ≠ F.headerSize then (F.emptyValue, s')
  else
    let h := F.decodeHeader header
    let size := F.getSize h
    if size = 0#32 then (F.makeValue h RcvBuf.empty, s')
    else
      let (rb, s'') := readRcvBuf size s'
      if rb.size ≠ size then (F.emptyValue, s'') else (F.makeValue h rb, s'')

/-- `connection::read_frame_compressed`; `none` is an exception thrown by the
compressor. -/
def readFrameCompressed (codecs : Compressor → Codec) (link : Link)
    (F : FrameType Header Value) (s : σ) : Option (Value × σ) :=
  match link.compressor with
  | some c =>
      let (compressHeader, s') := InputStream.readExactly 4 s
      if compressHeader.length ≠ 4 then some (F.emptyValue, s')
      else
        let size := BitVec.ofNat 32 (ofBytesLE compressHeader)
        let (compressed, s'') := readRcvBuf size s'
        if compressed.size ≠ size then some (F.emptyValue, s'')
        else do
          let eb ← (codecs c).decompress compressed
          let inner : σ := InputStream.ofBuffers eb.bufs
          some ((readFrame F inner).1, s'')
  | none => some (readFrame F s)

end

/-- `request_frame::header_and_buffer_type`. -/
structure RequestFrame where
  expire : Option (BitVec 64)
  type : BitVec 64
  msgId : BitVec 64
  data : Option RcvBuf

/-- `request_frame::header_type`. -/
structure RequestHeader where
  expire : Option (BitVec 64)
  type : BitVec 64
  msgId : BitVec 64
  size : BitVec 32

/-- The little-endian integer of `n` bytes at an offset. -/
def readLE (n : Nat) (bytes : List Byte) (offset : Nat) : Nat :=
  ofBytesLE ((bytes.drop offset).take n)

def requestFrame : FrameType RequestHeader RequestFrame where
  headerSize := 20
  decodeHeader ptr := {
    expire := none
    type := BitVec.ofNat 64 (readLE 8 ptr 0)
    msgId := BitVec.ofNat 64 (readLE 8 ptr 8)
    size := BitVec.ofNat 32 (readLE 4 ptr 16) }
  getSize := RequestHeader.size
  makeValue t data := ⟨t.expire, t.type, t.msgId, some data⟩
  emptyValue := ⟨none, 0#64, 0#64, none⟩

def requestFrameWithTimeout : FrameType RequestHeader RequestFrame :=
  { requestFrame with
    headerSize := 28
    decodeHeader := fun ptr =>
      { requestFrame.decodeHeader (ptr.drop 8) with
        expire := some (BitVec.ofNat 64 (readLE 8 ptr 0)) } }

/-- `response_frame::header_and_buffer_type`. -/
structure ResponseFrame where
  msgId : BitVec 64
  data : Option RcvBuf

def responseFrame : FrameType (BitVec 64 × BitVec 32) ResponseFrame where
  headerSize := 12
  decodeHeader ptr := (BitVec.ofNat 64 (readLE 8 ptr 0), BitVec.ofNat 32 (readLE 4 ptr 8))
  getSize := Prod.snd
  makeValue t data := ⟨t.1, some data⟩
  emptyValue := ⟨0#64, none⟩

theorem requestFrame_makeValue (t : RequestHeader) (data : RcvBuf) :
    requestFrame.makeValue t data = ⟨t.expire, t.type, t.msgId, some data⟩ := rfl

theorem requestFrameWithTimeout_makeValue (t : RequestHeader) (data : RcvBuf) :
    requestFrameWithTimeout.makeValue t data = ⟨t.expire, t.type, t.msgId, some data⟩ := rfl

theorem responseFrame_makeValue (t : BitVec 64 × BitVec 32) (data : RcvBuf) :
    responseFrame.makeValue t data = ⟨t.1, some data⟩ := rfl

/-! ## The read loops -/

/-- A request as the server passes it to its handler. -/
structure Request where
  type : BitVec 64
  msgId : BitVec 64
  payload : List Byte
  timeout : Option Int
  deriving DecidableEq, Repr

/-- A response as the client reads it: the id as it stands in the frame. -/
structure Response where
  msgId : BitVec 64
  payload : List Byte
  deriving DecidableEq, Repr

/-- The absolute timeout of a request; zero milliseconds stand for none. -/
def requestTimeout (clock : Clock) (now : TimePoint) (expire : Option (BitVec 64)) :
    Option Int :=
  match expire with
  | some ms =>
      if ms ≠ 0#64 then
        some (relativeTimeoutToAbsolute clock now (ms.toInt * clock.ticksPerMs))
      else none
  | none => none

section

variable {σ : Type} [InputStream Byte σ]

/-- The `do_until` of a read loop around one read. A read without data sets
`_error`, an exception leaves the loop; `none` is running out of fuel, not an
end of the loop. -/
def readLoop {α : Type} (next : Nat → σ → Option (Option α × σ)) : Nat → σ → Option (List α)
  | 0, _ => none
  | fuel + 1, s =>
      if InputStream.eof s then some []
      else match next fuel s with
        | some (some a, s') => (readLoop next fuel s').map (a :: ·)
        | some (none, _) => some []
        | none => some []

variable (clock : Clock) (codecs : Compressor → Codec) (link : Link)

/-- `server::connection::read_request_frame_compressed`. -/
def readRequestFrameCompressed (s : σ) : Option (RequestFrame × σ) :=
  if link.timeoutNegotiated then readFrameCompressed codecs link requestFrameWithTimeout s
  else readFrameCompressed codecs link requestFrame s

/-- One round of the read loop of `server::connection::process`. -/
def readRequest (now : TimePoint) (s : σ) : Option (Option Request × σ) :=
  (readRequestFrameCompressed codecs link s).map fun (f, s') =>
    (f.data.map fun data =>
      ⟨f.type, f.msgId, data.content, requestTimeout clock now f.expire⟩, s')

/-- The read loop of `server::connection::process`, with a clock reading for
each round. -/
def serverLoop (now : Nat → TimePoint) : Nat → σ → Option (List Request) :=
  readLoop fun fuel => readRequest clock codecs link (now fuel)

/-- One round of the read loop of `client`. -/
def readResponse (s : σ) : Option (Option Response × σ) :=
  (readFrameCompressed codecs link responseFrame s).map fun (f, s') =>
    (f.data.map fun data => ⟨f.msgId, data.content⟩, s')

/-- The read loop of `client`. -/
def clientLoop : Nat → σ → Option (List Response) :=
  readLoop fun _ => readResponse codecs link

end

/-- Reading `n` bytes off a `memory_input_stream`, which throws when they are
not there. -/
def take? (n : Nat) (bytes : List Byte) : Option (List Byte × List Byte) :=
  if bytes.length < n then none else some (bytes.splitAt n)

/-- What a call is resolved with. -/
inductive Outcome
  | value (payload : List Byte)
  | userException (what : List Byte)
  | unknownVerb (type : BitVec 64)
  | unknownException
  deriving DecidableEq, Repr

/-- `unmarshal_exception`. -/
def unmarshalException (data : List Byte) : Option Outcome := do
  let (exType, data) ← take? 4 data
  let (exLen, data) ← take? 4 data
  match ofBytesLE exType with
  | 0 => do
      let (s, _) ← take? (ofBytesLE exLen) data
      some (.userException s)
  | 1 => do
      let (v64, _) ← take? 8 data
      some (.unknownVerb (BitVec.ofNat 64 (ofBytesLE v64)))
  | _ => some .unknownException

/-- What the handler of a reply is resolved with: the sign of the id tells
values from exceptions. -/
def Response.outcome (r : Response) : Option Outcome :=
  if 0 ≤ r.msgId.toInt then some (.value r.payload) else unmarshalException r.payload

end ActorNet.Rpc
