import ActorNet.Lib.BoundedQueue
import ActorNet.Lib.Run
import ActorNet.Http.Message

/-!
# The reader and the writer of an HTTP connection

`process` runs two tasks: `read` parses requests and queues their replies,
`respond` takes the replies from the queue and writes them. They share the flag
`_done` and the queue `_replies`, whose null element marks the end. A step of
the connection is one continuation of either task.
-/

namespace ActorNet.Http

open Lib

/-- The state of `http_request_parser` after it has consumed its part of the
stream. -/
inductive ParserState
  | error
  | eof
  | done
  deriving DecidableEq, Repr

/-- What a connection uses of its server: the generated parser, which leaves
the rest of the stream behind, and the handlers behind `_routes.handle`. What a
handler answers may depend on how many requests the connection has served. -/
structure Server where
  contentLengthLimit : Nat
  consume : List UInt8 → ParserState × Request × List UInt8
  handle : Nat → Request → Reply → Reply

/-- Where `read` stands. The flag of a wait for room says that room was
granted, which the continuation has yet to use. -/
inductive Reader
  | loop
  | parsing
  | continueRoom (req : Request) (granted : Bool)
  | readingBody (req : Request)
  | replyRoom (req : Request) (granted : Bool)
  | handling (req : Request) (shouldClose : Bool)
  | handled (shouldClose : Bool)
  | endRoom (granted : Bool)
  | finished
  deriving DecidableEq, Repr

/-- Where `respond` stands: a reply with a body writer takes three stages. -/
inductive Writer
  | popping
  | writingReply
  | writingBody
  | writingEnd
  | flushing
  | ended (failed : Bool)
  deriving DecidableEq, Repr

/-- `connection`, with the part of the byte stream that is not read yet, the
replies handed to `start_response` so far, and its share of the server's
counters. -/
structure Connection (Q : Type) where
  input : List UInt8
  replies : Q
  done : Bool
  reader : Reader
  writer : Writer
  written : List Reply
  requestsServed : Nat
  readErrors : Nat
  respondErrors : Nat

variable {Q : Type} [BoundedQueue (Option Reply) Q]

open BoundedQueue

def Connection.start (input : List UInt8) : Connection Q :=
  { input, replies := ofCapacity 10, done := false, reader := .loop, writer := .popping
    written := [], requestsServed := 0, readErrors := 0, respondErrors := 0 }

namespace Connection

/-! ## Replies to requests -/

/-- The reply of `generate_error_reply_and_close`. -/
def errorReply (version : String) (status : StatusType) (msg : String) : Reply :=
  ((Reply.new.setVersion version).setStatus status msg).done

def malformedReply (req : Request) : Reply :=
  errorReply (if req.version == "" then "1.1" else req.version) .badRequest
    "Can't parse the request"

def tooLargeReply (limit : Nat) (req : Request) : Reply :=
  errorReply req.version .payloadTooLarge
    ("Content length limit (" ++ toString limit ++ ") exceeded: " ++ toString req.contentLength)

def expectsContinue (req : Request) : Bool :=
  req.version == "1.1" && caseInsensitiveCmp (req.getHeader "Expect") "100-continue"

def continueReply (req : Request) : Reply :=
  ((Reply.new.setVersion req.version).setStatus .continue_ "").done

def keepAliveAsked (req : Request) : Bool := req.findHeader "Connection" == some "Keep-Alive"

def closeAsked (req : Request) : Bool := req.findHeader "Connection" == some "Close"

def shouldClose (req : Request) : Bool :=
  if req.version == "1.0" then !keepAliveAsked req
  else if req.version == "1.1" then closeAsked req
  else true

/-- The reply of `generate_reply`: what the handlers make of a fresh reply. -/
def handlerReply (server : Server) (served : Nat) (req : Request) : Reply :=
  let resp := Reply.new.setVersion req.version
  let resp := if req.version == "1.0" && keepAliveAsked req
    then resp.addHeader "Connection" "Keep-Alive" else resp
  ((server.handle served req resp).setVersion req.version).done

/-! ## The reader -/

/-- The end of `read`: `push_eventually` of the end marker. -/
def readEnd (c : Connection Q) : Connection Q :=
  if aborted c.replies then { c with reader := .finished }
  else if full c.replies then { c with reader := .endRoom false }
  else { c with replies := push none c.replies, reader := .finished }

/-- A read that failed ends the loop of `read`, which swallows the error. -/
def readFailed (c : Connection Q) : Connection Q :=
  readEnd { c with readErrors := c.readErrors + 1 }

/-- `not_full`, and where the reader waits for it. -/
def notFull (c : Connection Q) (wait : Bool → Reader) : Connection Q :=
  if aborted c.replies then readFailed c
  else { c with reader := wait (!full c.replies) }

/-- `generate_error_reply_and_close`. -/
def generateErrorReplyAndClose (c : Connection Q) (resp : Reply) : Connection Q :=
  { c with done := true, replies := push (some resp) c.replies, reader := .loop }

/-- `read_one`, up to its first wait. -/
def readOne (server : Server) (c : Connection Q) : Connection Q :=
  match server.consume c.input with
  | (.eof, _, rest) => { c with input := rest, done := true, reader := .loop }
  | (.error, req, rest) =>
      generateErrorReplyAndClose
        { c with input := rest, requestsServed := c.requestsServed + 1 } (malformedReply req)
  | (.done, parsed, rest) =>
      let req :=
        { parsed with contentLength := toSizeT (strtol (parsed.getHeader "Content-Length")) }
      let c := { c with input := rest, requestsServed := c.requestsServed + 1 }
      if req.contentLength > server.contentLengthLimit then
        generateErrorReplyAndClose c (tooLargeReply server.contentLengthLimit req)
      else if expectsContinue req then notFull c (.continueRoom req)
      else { c with reader := .readingBody req }

/-- `read_request_body` on a stream that ends early gives what is left. -/
def withBody (req : Request) (input : List UInt8) : Request :=
  if req.contentLength == 0 then req else { req with content := input.take req.contentLength }

/-- `read_request_body`, and the wait for room that follows it. -/
def readRequestBody (c : Connection Q) (req : Request) : Connection Q :=
  notFull { c with input := c.input.drop req.contentLength } (.replyRoom (withBody req c.input))

/-- The next continuation of `read`; none while it waits for room. -/
def readerStep (server : Server) (c : Connection Q) : Option (Connection Q) :=
  match c.reader with
  | .loop => some (if c.done then readEnd c else { c with reader := .parsing })
  | .parsing => some (readOne server c)
  | .continueRoom req true =>
      some { c with replies := push (some (continueReply req)) c.replies
                    reader := .readingBody req }
  | .readingBody req => some (readRequestBody c req)
  | .replyRoom req true => some { c with reader := .handling req (shouldClose req) }
  | .handling req close =>
      some { c with replies := push (some (handlerReply server c.requestsServed req)) c.replies
                    reader := .handled close }
  | .handled close => some { c with done := close, reader := .loop }
  | .endRoom true => some { c with replies := push none c.replies, reader := .finished }
  | .continueRoom _ false | .replyRoom _ false | .endRoom false | .finished => none

/-- A failing read of the socket, while a request or its body is read. -/
def readerFails (c : Connection Q) : Option (Connection Q) :=
  match c.reader with
  | .parsing | .readingBody _ => some (readFailed c)
  | _ => none

/-! ## The writer -/

/-- A reader that waits for room is granted it when a full queue is popped. -/
def Reader.grant : Reader → Reader
  | .continueRoom req _ => .continueRoom req true
  | .replyRoom req _ => .replyRoom req true
  | .endRoom _ => .endRoom true
  | reader => reader

/-- `pop_eventually` in `do_response_loop`, and the reply it passes on. -/
def doResponseLoop (c : Connection Q) : Option (Connection Q) :=
  if aborted c.replies then
    some { c with writer := .ended true, respondErrors := c.respondErrors + 1 }
  else
    match items c.replies with
    | [] => none
    | resp :: _ =>
        let c := { c with replies := pop c.replies
                          reader := if full c.replies then Reader.grant c.reader else c.reader }
        match resp with
        | none => some { c with writer := .ended false }
        | some resp =>
            some { c with written := c.written ++ [resp]
                          writer := if resp.bodyWriter then .writingBody else .writingReply }

/-- A reader that waits for room gets the error the queue was aborted with. -/
def failWaiter (c : Connection Q) : Connection Q :=
  match c.reader with
  | .continueRoom _ false | .replyRoom _ false => readFailed c
  | .endRoom false => { c with reader := .finished }
  | _ => c

/-- What the stages of `start_response` do about an error. -/
def signalFailure (c : Connection Q) : Connection Q :=
  failWaiter { c with done := true, replies := push none (abort c.replies) }

/-- The next continuation of `respond` when its writes succeed. -/
def writerStep (c : Connection Q) : Option (Connection Q) :=
  match c.writer with
  | .popping => doResponseLoop c
  | .writingReply => some { c with writer := .popping }
  | .writingBody => some { c with writer := .writingEnd }
  | .writingEnd => some { c with writer := .flushing }
  | .flushing => some { c with writer := .popping }
  | .ended _ => none

/-- A failing write. Without a body writer the error ends `do_response_loop`. -/
def writerFails (c : Connection Q) : Option (Connection Q) :=
  match c.writer with
  | .writingReply => some { c with writer := .ended true, respondErrors := c.respondErrors + 1 }
  | .writingBody =>
      some (signalFailure { c with writer := .flushing, respondErrors := c.respondErrors + 1 })
  | .writingEnd => some (signalFailure { c with writer := .popping })
  | .flushing => some (signalFailure { c with writer := .popping })
  | .popping | .ended _ => none

end Connection

inductive Event
  | read
  | readFails
  | write
  | writeFails
  deriving DecidableEq, Repr

def Connection.step (server : Server) (c : Connection Q) : Event → Option (Connection Q)
  | .read => c.readerStep server
  | .readFails => c.readerFails
  | .write => c.writerStep
  | .writeFails => c.writerFails

/-- `process` completes when both tasks have. -/
def Connection.completed (c : Connection Q) : Prop :=
  c.reader = .finished ∧ ∃ failed, c.writer = .ended failed

end ActorNet.Http
