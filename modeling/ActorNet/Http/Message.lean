import Mathlib.Algebra.Group.Int.Defs
import Mathlib.Algebra.Group.Nat.Defs
import Mathlib.Data.Nat.Basic

/-!
# HTTP requests and replies

What a connection reads of a request and writes into a reply. The `Server` and
`Date` headers, which `set_headers` gives every reply, are left out.
-/

namespace ActorNet.Http

/-- `request`, as the parser and `read_one` fill it. -/
structure Request where
  method : String
  url : String
  version : String
  headers : List (String × String)
  contentLength : Nat
  content : List UInt8
  deriving DecidableEq, Repr

def caseInsensitiveCmp (s₁ s₂ : String) : Bool :=
  s₁.toList.map Char.toLower == s₂.toList.map Char.toLower

/-- `_headers.find`: the names of headers differ in more than case. -/
def Request.findHeader (req : Request) (name : String) : Option String :=
  (req.headers.find? fun header => caseInsensitiveCmp header.1 name).map Prod.snd

def Request.getHeader (req : Request) (name : String) : String :=
  (req.findHeader name).getD ""

/-- The value of the leading digits, and nothing of what follows them. -/
def digitsValue (acc : Nat) : List Char → Nat
  | [] => acc
  | c :: cs => if c.isDigit then digitsValue (acc * 10 + (c.toNat - '0'.toNat)) cs else acc

def isSpace (c : Char) : Bool := c == ' ' || ('\t'.toNat ≤ c.toNat && c.toNat ≤ '\r'.toNat)

/-- `strtol(s, nullptr, 10)` for a 64-bit `long`, which saturates. -/
def strtol (s : String) : Int :=
  match s.toList.dropWhile isSpace with
  | '-' :: cs => max (-2 ^ 63) (-(digitsValue 0 cs : Int))
  | '+' :: cs => min (2 ^ 63 - 1) (digitsValue 0 cs)
  | cs => min (2 ^ 63 - 1) (digitsValue 0 cs)

/-- A `long` assigned to a `size_t`. -/
def toSizeT (n : Int) : Nat := (n % 2 ^ 64).toNat

/-- `reply::status_type`. -/
inductive StatusType
  | continue_
  | ok
  | created
  | accepted
  | noContent
  | multipleChoices
  | movedPermanently
  | movedTemporarily
  | notModified
  | badRequest
  | unauthorized
  | forbidden
  | notFound
  | lengthRequired
  | payloadTooLarge
  | internalServerError
  | notImplemented
  | badGateway
  | serviceUnavailable
  deriving DecidableEq, Repr

/-- `status_strings::to_string`. -/
def StatusType.toString : StatusType → String
  | .continue_ => " 100 Continue\r\n"
  | .ok => " 200 OK\r\n"
  | .created => " 201 Created\r\n"
  | .accepted => " 202 Accepted\r\n"
  | .noContent => " 204 No Content\r\n"
  | .multipleChoices => " 300 Multiple Choices\r\n"
  | .movedPermanently => " 301 Moved Permanently\r\n"
  | .movedTemporarily => " 302 Moved Temporarily\r\n"
  | .notModified => " 304 Not Modified\r\n"
  | .badRequest => " 400 Bad Request\r\n"
  | .unauthorized => " 401 Unauthorized\r\n"
  | .forbidden => " 403 Forbidden\r\n"
  | .notFound => " 404 Not Found\r\n"
  | .lengthRequired => " 411 Length Required\r\n"
  | .payloadTooLarge => " 413 Payload Too Large\r\n"
  | .internalServerError => " 500 Internal Server Error\r\n"
  | .notImplemented => " 501 Not Implemented\r\n"
  | .badGateway => " 502 Bad Gateway\r\n"
  | .serviceUnavailable => " 503 Service Unavailable\r\n"

/-- `reply`; of `_body_writer` only whether there is one. -/
structure Reply where
  status : StatusType
  headers : List (String × String)
  version : String
  content : String
  responseLine : String
  bodyWriter : Bool
  deriving DecidableEq, Repr

namespace Reply

/-- A default-constructed `reply`. -/
def new : Reply := ⟨.ok, [], "", "", "", false⟩

def addHeader (h value : String) (r : Reply) : Reply :=
  { r with headers := (h, value) :: r.headers.filter fun header => header.1 != h }

def setVersion (version : String) (r : Reply) : Reply := { r with version }

def setStatus (status : StatusType) (content : String) (r : Reply) : Reply :=
  { r with status, content := if content == "" then r.content else content }

/-- Sets the response line, as `response_line` gives it. -/
def done (r : Reply) : Reply :=
  { r with responseLine := "HTTP/" ++ r.version ++ r.status.toString }

end Reply

end ActorNet.Http
