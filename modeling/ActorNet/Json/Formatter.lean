import ActorNet.Lib.Json

/-!
# The JSON formatter

`formatter::to_json` and `formatter::write`, and the two builders of a
`json_base`: `json_builder` makes a string, `json_stream_builder` writes to a
stream. A string is the list of its characters. A failure is the exception that
leaves the function; what a failed `write` leaves in the stream is not kept.
-/

namespace ActorNet.Json

open ActorNet.Lib.Json (Text Number Value)

inductive JsonError
  | outOfRange (what : String)
  | invalidArgument (what : String)
  | runtimeError (what : String) (nested : JsonError)
  deriving DecidableEq, Repr

/-- A `float` or a `double`. The stream prints a finite one as a number. -/
inductive Real
  | finite (n : Number)
  | infinite
  | nan
  deriving DecidableEq, Repr

inductive Precision
  | float
  | double
  deriving DecidableEq, Repr

def Precision.name : Precision → String
  | .float => "float"
  | .double => "double"

/-- `json_base_element` and the value that `json_element` or `json_list` adds. -/
structure Element (α : Type) where
  name : Text
  set : Bool
  value : α
  deriving DecidableEq, Repr

/-- What an element can hold: the types that have both a `to_json` and a `write`.
An object is the `_elements` of a `json_base`. -/
inductive Datum
  | str (s : Text)
  | integer (n : Int)
  | real (precision : Precision) (x : Real)
  | boolean (b : Bool)
  | vector (elements : List Datum)
  | object (elements : List (Option (Element Datum)))

/-- What `to_json` takes besides: maps, which `write` does not compile for. A map
is its entries in the order of iteration. -/
inductive Printable
  | datum (d : Datum)
  | vector (elements : List Printable)
  | pairs (elements : List (Text × Printable))
  | map (entries : List (Text × Printable))

/-! ## `formatter` -/

/-- What a C string keeps of a string. -/
def cStr (s : Text) : Text := s.takeWhile (· ≠ '\x00')

/-- `to_json(const sstring&)`, which goes through `const char*`. -/
def toJsonString (s : Text) : Text := '"' :: (cStr s ++ ['"'])

def toJsonReal (precision : Precision) : Real → Except JsonError Text
  | .finite n => .ok n.text
  | .infinite => .error (.outOfRange s!"Infinite {precision.name} value is not supported")
  | .nan => .error (.invalidArgument s!"Invalid {precision.name} value")

def toJsonBool (b : Bool) : Text := if b then "true".toList else "false".toList

/-- `formatter::state`. -/
inductive State
  | none
  | array
  | map
  deriving DecidableEq, Repr

def begin_ : State → Text
  | .array => ['[']
  | .map => ['{']
  | .none => []

def end_ : State → Text
  | .array => [']']
  | .map => ['}']
  | .none => []

/-- The loop of `to_json` over a range, behind the first `n` elements. -/
def separated : Nat → List Text → Text
  | _, [] => []
  | n, t :: ts => (if n ≠ 0 then [','] else []) ++ t ++ separated (n + 1) ts

/-- `to_json(state, Iter, Iter)`. -/
def toJsonRange (s : State) (elements : List Text) : Text :=
  begin_ s ++ separated 0 elements ++ end_ s

/-- `to_json(state, const std::pair&)`. -/
def toJsonPair (s : State) (key : Text) (value : Text) : Text :=
  match s with
  | .array => '{' :: (toJsonString key ++ ':' :: value ++ ['}'])
  | _ => toJsonString key ++ ':' :: value

/-! ## `json_builder` -/

structure JsonBuilder where
  result : Text
  first : Bool
  deriving DecidableEq, Repr

def JsonBuilder.init : JsonBuilder where
  result := ['{']
  first := true

def JsonBuilder.add (builder : JsonBuilder) (name str : Text) : JsonBuilder where
  result := builder.result ++ (if builder.first then [] else [',', ' ']) ++
    '"' :: (name ++ ['"', ':', ' '] ++ str)
  first := false

def JsonBuilder.asJson (builder : JsonBuilder) : Text := builder.result ++ ['}']

/-- The exception that names the field. -/
def generationFailed (name : Text) (nested : JsonError) : JsonError :=
  .runtimeError s!"Json generation failed for field: {String.ofList name}" nested

mutual

def Datum.toJson : Datum → Except JsonError Text
  | .str s => .ok (toJsonString s)
  | .integer n => .ok (Number.ofInt n).text
  | .real precision x => toJsonReal precision x
  | .boolean b => .ok (toJsonBool b)
  | .vector elements => (toJsonEach elements).map (toJsonRange .array)
  | .object elements => (addEach .init elements).map JsonBuilder.asJson

def toJsonEach : List Datum → Except JsonError (List Text)
  | [] => .ok []
  | d :: ds => do
    let t ← d.toJson
    let ts ← toJsonEach ds
    return t :: ts

/-- `json_builder::add` of every element: one that is null or not set is left
out. -/
def addEach (builder : JsonBuilder) :
    List (Option (Element Datum)) → Except JsonError JsonBuilder
  | [] => .ok builder
  | none :: elements => addEach builder elements
  | some element :: elements =>
    if element.set = false then addEach builder elements
    else match element.value.toJson with
      | .ok str => addEach (builder.add element.name str) elements
      | .error e => .error (generationFailed element.name e)

end

/-- `json_base::to_json`. -/
def toJson (elements : List (Option (Element Datum))) : Except JsonError Text :=
  (addEach .init elements).map JsonBuilder.asJson

mutual

def Printable.toJson : Printable → Except JsonError Text
  | .datum d => d.toJson
  | .vector elements => (printEach elements).map (toJsonRange .array)
  | .pairs elements => (printPairs .array elements).map (toJsonRange .array)
  | .map entries => (printPairs .map entries).map (toJsonRange .map)

def printEach : List Printable → Except JsonError (List Text)
  | [] => .ok []
  | p :: ps => do
    let t ← p.toJson
    let ts ← printEach ps
    return t :: ts

def printPairs (s : State) : List (Text × Printable) → Except JsonError (List Text)
  | [] => .ok []
  | (key, p) :: ps => do
    let t ← p.toJson
    let ts ← printPairs s ps
    return toJsonPair s key t :: ts

end

/-! ## `write` -/

mutual

/-- `formatter::write`: a nested object is written as its `to_json`. -/
def Datum.write : Datum → Except JsonError Text
  | .vector elements => do
    let body ← writeEach true elements
    return begin_ .array ++ body ++ end_ .array
  | d => d.toJson

/-- The loop of `write` over a range. -/
def writeEach (first : Bool) : List Datum → Except JsonError Text
  | [] => .ok []
  | d :: ds => do
    let t ← d.write
    let ts ← writeEach false ds
    return (if first then [] else [',']) ++ t ++ ts

end

/-- `json_stream_builder` and what its stream has been given. -/
structure JsonStreamBuilder where
  first : Bool
  isOpen : Bool
  stream : Text
  deriving DecidableEq, Repr

def JsonStreamBuilder.init : JsonStreamBuilder where
  first := true
  isOpen := false
  stream := []

/-- The opening brace is written with the first element. -/
def JsonStreamBuilder.opened (builder : JsonStreamBuilder) : JsonStreamBuilder :=
  if builder.isOpen then builder
  else { builder with isOpen := true, stream := builder.stream ++ ['{'] }

def JsonStreamBuilder.addElement (builder : JsonStreamBuilder) (name : Text) (element : Datum) :
    Except JsonError JsonStreamBuilder := do
  let builder := builder.opened
  let stream := builder.stream ++ ((if builder.first then '"' :: name else ',' :: '"' :: name) ++
    ['"', ':'])
  let value ← element.write
  return { builder with first := false, stream := stream ++ value }

/-- `json_stream_builder::add`: an element that is null or not set is left out. -/
def JsonStreamBuilder.add (builder : JsonStreamBuilder) :
    Option (Element Datum) → Except JsonError JsonStreamBuilder
  | none => .ok builder
  | some element =>
    if element.set = false then .ok builder else builder.addElement element.name element.value

def JsonStreamBuilder.done (builder : JsonStreamBuilder) : Text := builder.stream ++ ['}']

/-- `json_base::write`: the bytes the stream is given. -/
def write (elements : List (Option (Element Datum))) : Except JsonError Text :=
  (elements.foldlM JsonStreamBuilder.add .init).map JsonStreamBuilder.done

end ActorNet.Json
