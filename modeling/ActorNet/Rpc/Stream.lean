import ActorNet.Lib.BoundedQueue
import ActorNet.Lib.Run
import ActorNet.Rpc.Frame

/-!
# Streams: a sink, a connection and a source

A sink writes one frame for each value and a frame of the largest size at its
end. The receiving connection reads the frames into a bounded queue, within the
memory its semaphore allows, and aborts the queue when it ends. A source takes
what the queue holds in batches and yields the values one by one.
-/

namespace ActorNet.Rpc

open Lib BoundedQueue

/-! ## Frames -/

/-- The size that marks the end of a stream. -/
def endSize : BitVec 32 := 0xffffffff#32

/-- `stream_frame::header_type`. -/
structure StreamHeader where
  size : BitVec 32
  eos : Bool

def streamFrame : FrameType StreamHeader (Option RcvBuf) where
  headerSize := 4
  decodeHeader ptr :=
    let size := BitVec.ofNat 32 (readLE 4 ptr 0)
    if size = endSize then ⟨0#32, true⟩ else ⟨size, false⟩
  getSize := StreamHeader.size
  makeValue t data := some (if t.eos then { data with size := endSize } else data)
  emptyValue := none

/-- What `sink_impl::operator()` sends for a value. -/
def sinkValue (uninit : Nat → Byte) (value : List Byte) : SndBuf :=
  let data := marshall 4 uninit value
  data.writeFront 0 (toBytesLE 4 (data.size - 4#32).toNat)

/-- What `sink_impl::close` sends. -/
def sinkClose (uninit : Nat → Byte) : SndBuf :=
  (marshall 4 uninit []).writeFront 0 (toBytesLE 4 endSize.toNat)

/-- A value, or the end of the stream, as the sink sends it. -/
def sinkFrame (uninit : Nat → Byte) : Option (List Byte) → SndBuf
  | some value => sinkValue uninit value
  | none => sinkClose uninit

/-- The bytes on the wire for a list of frames; `send_loop` compresses each. -/
def streamBytes (codecs : Compressor → Codec) (link : Link) (uninit : Nat → Byte)
    (frames : List (Option (List Byte))) : List Byte :=
  writeLoop (fun frame => compress codecs link (sinkFrame uninit frame)) frames

/-! ## The receiving connection -/

/-- `rcv_buf` with the semaphore units it holds. -/
structure StreamBuf where
  buf : RcvBuf
  su : Nat
  deriving DecidableEq, Repr

/-- The buffer marks the end of the stream. -/
def RcvBuf.isEnd (b : RcvBuf) : Bool := b.size == endSize

def StreamBuf.isEnd (b : StreamBuf) : Bool := b.buf.isEnd

def maxQueuedStreamBuffers : Nat := 50

def maxStreamBuffersMemory : Nat := 100 * 1024

/-- Where the read loop stands: it waits for a frame, for units of the semaphore
or for room in the queue, which the flag says is granted. -/
inductive FrameReader
  | reading
  | acquiring (buf : RcvBuf)
  | pushing (buf : StreamBuf) (granted : Bool)
  | ended
  deriving DecidableEq, Repr

/-- What a call of the source returns. -/
inductive SourceRead
  | value (payload : List Byte)
  | endOfStream
  | closed
  deriving DecidableEq, Repr

/-- Where a call of the source stands: it waits for the queue, or for the
connection to stop before it returns its result. -/
inductive SourcePhase
  | idle
  | waiting
  | closing (result : SourceRead)
  deriving DecidableEq, Repr

/-- The stream part of `connection` and the source that reads it, with the
frames read and the results returned so far. -/
structure StreamConnection (σ Q : Type) where
  readBuf : σ
  error : Bool
  reader : FrameReader
  streamQueue : Q
  streamSem : Nat
  sinkClosed : Bool
  sourceClosed : Bool
  source : SourcePhase
  bufs : List StreamBuf
  received : List RcvBuf
  yielded : List SourceRead
  assertFailed : Bool

inductive StreamEvent
  | readFrame
  | acquire
  | push
  | call
  | receive
  | stopped
  | sinkCloses
  deriving DecidableEq, Repr

namespace StreamConnection

variable {σ Q : Type} [InputStream Byte σ] [BoundedQueue StreamBuf Q]

def start (readBuf : σ) (sinkClosed : Bool) : StreamConnection σ Q :=
  { readBuf, error := false, reader := .reading, streamQueue := ofCapacity maxQueuedStreamBuffers
    streamSem := maxStreamBuffersMemory, sinkClosed, sourceClosed := false, source := .idle
    bufs := [], received := [], yielded := [], assertFailed := false }

/-- The units held by buffers. -/
def held (bufs : List StreamBuf) : Nat := (bufs.map StreamBuf.su).sum

/-- The end of `process`: what is queued is discarded. -/
def teardown (c : StreamConnection σ Q) : StreamConnection σ Q :=
  { c with error := true, reader := .ended, streamQueue := abort c.streamQueue
           streamSem := c.streamSem + held (items c.streamQueue) }

/-- One round of the read loop, up to `handle_stream_frame`'s wait for units. -/
def readFrameStep (codecs : Compressor → Codec) (link : Link) (c : StreamConnection σ Q) :
    Option (StreamConnection σ Q) :=
  match c.reader with
  | .reading =>
      if InputStream.eof c.readBuf || c.error then some (teardown c)
      else match readFrameCompressed codecs link streamFrame c.readBuf with
        | none => some (teardown c)
        | some (none, rest) => some { c with readBuf := rest, error := true }
        | some (some buf, rest) =>
            some { c with readBuf := rest, received := c.received ++ [buf]
                          reader := .acquiring buf }
  | _ => none

/-- `stream_process_incoming`: huge packets take all the units there are. -/
def acquireStep (c : StreamConnection σ Q) : Option (StreamConnection σ Q) :=
  match c.reader with
  | .acquiring buf =>
      let size := min buf.size.toNat maxStreamBuffersMemory
      if size ≤ c.streamSem then
        let c := { c with streamSem := c.streamSem - size }
        if full c.streamQueue then some { c with reader := .pushing ⟨buf, size⟩ false }
        else some { c with streamQueue := push ⟨buf, size⟩ c.streamQueue, reader := .reading }
      else none
  | _ => none

/-- The continuation of `push_eventually` once there is room. -/
def pushStep (c : StreamConnection σ Q) : Option (StreamConnection σ Q) :=
  match c.reader with
  | .pushing buf true =>
      some { c with streamQueue := push buf c.streamQueue, reader := .reading }
  | _ => none

/-! ## The source -/

def yields (c : StreamConnection σ Q) (r : SourceRead) : StreamConnection σ Q :=
  { c with source := .idle, yielded := c.yielded ++ [r] }

/-- `process_one_buffer`. -/
def processOneBuffer (c : StreamConnection σ Q) (b : StreamBuf) (rest : List StreamBuf) :
    StreamConnection σ Q :=
  yields { c with bufs := rest, streamSem := c.streamSem + b.su } (.value b.buf.content)

/-- `close_source`, and the result that is returned after it. When the sink is
closed too, the connection is stopped and has to end first. -/
def closeSource (c : StreamConnection σ Q) (r : SourceRead) : StreamConnection σ Q :=
  if c.sinkClosed then { c with sourceClosed := true, error := true, source := .closing r }
  else yields { c with sourceClosed := true } r

/-- `source_impl::operator()`, up to `stream_receive`'s wait for the queue. -/
def callStep (c : StreamConnection σ Q) : Option (StreamConnection σ Q) :=
  match c.source with
  | .idle =>
      match c.bufs with
      | b :: rest => some (processOneBuffer c b rest)
      | [] => some (if c.sourceClosed then yields c .closed else { c with source := .waiting })
  | _ => none

/-- A reader that waits for room is granted it when the queue has some again. -/
def FrameReader.grant : FrameReader → FrameReader
  | .pushing buf _ => .pushing buf true
  | reader => reader

/-- `stream_receive` on a queue that is not empty. An end of the stream behind
other buffers is put back for the next read to notice it. -/
def streamReceive (c : StreamConnection σ Q) : StreamConnection σ Q :=
  let (taken, stop, queue) := consume (fun b => !b.isEnd) c.streamQueue
  let eof := stop.isSome
  let c := { c with bufs := taken, streamQueue := queue
                    streamSem := c.streamSem + held stop.toList
                    reader := if full queue then c.reader else FrameReader.grant c.reader }
  if eof && !taken.isEmpty then
    { c with assertFailed := !(items queue).isEmpty
             streamQueue := push ⟨⟨endSize, []⟩, 0⟩ queue }
  else c

/-- The continuation of `not_empty`: nothing received is the end of the stream. -/
def receiveStep (c : StreamConnection σ Q) : Option (StreamConnection σ Q) :=
  match c.source with
  | .waiting =>
      if aborted c.streamQueue then some (closeSource c .closed)
      else if (items c.streamQueue).isEmpty then none
      else
        let c := streamReceive c
        match c.bufs with
        | [] => some (closeSource c .endOfStream)
        | b :: rest => some (processOneBuffer c b rest)
  | _ => none

/-- The connection has stopped, as `close_source` waits for it to do. -/
def stoppedStep (c : StreamConnection σ Q) : Option (StreamConnection σ Q) :=
  match c.source, c.reader with
  | .closing r, .ended => some (yields c r)
  | _, _ => none

/-- `close_sink` of a sink on the receiving side. -/
def sinkClosesStep (c : StreamConnection σ Q) : StreamConnection σ Q :=
  { c with sinkClosed := true, error := c.error || c.sourceClosed }

/-- One continuation of the connection or of its source; none when an assertion
has failed. -/
def step (codecs : Compressor → Codec) (link : Link) (c : StreamConnection σ Q)
    (e : StreamEvent) : Option (StreamConnection σ Q) :=
  if c.assertFailed then none
  else match e with
    | .readFrame => readFrameStep codecs link c
    | .acquire => acquireStep c
    | .push => pushStep c
    | .call => callStep c
    | .receive => receiveStep c
    | .stopped => stoppedStep c
    | .sinkCloses => some (sinkClosesStep c)

end StreamConnection

end ActorNet.Rpc
