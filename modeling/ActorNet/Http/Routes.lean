import ActorNet.Lib.OrdMap
import Mathlib.Data.List.Basic
import Mathlib.Data.UInt

/-!
# Routes

`routes`: the exact matches, the rules in the order of their cookies and the
default handler, with the matchers of a rule. Handlers are pointers, of which the
model keeps the target: `none` is the null pointer. A url is the list of its
characters; a position in it that is not there (`npos`) is `none`.
-/

namespace ActorNet.Http

abbrev Url := List Char

/-- `operation_type`. -/
inductive OperationType
  | get
  | post
  | put
  | delete
  | head
  | options
  | trace
  | connect
  deriving DecidableEq, Repr

/-! ## `parameters` -/

/-- The names that are set, with their values. -/
abbrev Parameters := List (List Char × List Char)

def Parameters.set (params : Parameters) (key value : List Char) : Parameters :=
  params.filter (fun param => decide (param.1 ≠ key)) ++ [(key, value)]

/-- `at`, which throws when the name is not set. -/
def Parameters.at_ (params : Parameters) (key : List Char) : Option (List Char) :=
  (params.find? fun param => decide (param.1 = key)).map Prod.snd

/-- `operator[]`: the value behind its first character. `substr` throws for the
empty value. -/
def Parameters.subscript (params : Parameters) (key : List Char) : Option (List Char) :=
  match params.at_ key with
  | none => none
  | some [] => none
  | some (_ :: value) => some value

/-! ## Matchers -/

inductive Matcher
  | str (cmp : List Char)
  | param (name : List Char) (entirePath : Bool)
  deriving DecidableEq, Repr

def findEndParam (url : Url) (ind : Nat) (entirePath : Bool) : Nat :=
  if entirePath then url.length
  else
    match (url.drop (ind + 1)).findIdx? (· == '/') with
    | none => url.length
    | some pos => ind + 1 + pos

/-- `matcher::match`: where the match ends, and the parameters. -/
def Matcher.match_ (matcher : Matcher) (url : Url) (ind : Nat) (params : Parameters) :
    Option Nat × Parameters :=
  match matcher with
  | .str cmp =>
    if url.length ≥ cmp.length + ind ∧ cmp.isPrefixOf (url.drop ind) ∧
        (url.length = cmp.length + ind ∨ url[cmp.length + ind]? = some '/') then
      (some (cmp.length + ind), params)
    else (none, params)
  | .param name entirePath =>
    let last := findEndParam url ind entirePath
    if last = ind then
      if entirePath then (some ind, params.set name []) else (none, params)
    else (some last, params.set name ((url.drop ind).take (last - ind)))

/-! ## Rules -/

structure MatchRule (α : Type) where
  matchList : List Matcher
  handler : Option α
  deriving DecidableEq, Repr

variable {α : Type}

/-- The loop of `get` over the matchers. -/
def matchFrom : List Matcher → Url → Nat → Parameters → Option Nat × Parameters
  | [], _, ind, params => (some ind, params)
  | matcher :: matchList, url, ind, params =>
    match matcher.match_ url ind params with
    | (none, params) => (none, params)
    | (some ind, params) => matchFrom matchList url ind params

def MatchRule.get (rule : MatchRule α) (url : Url) (params : Parameters) :
    Option α × Parameters :=
  if rule.matchList.isEmpty then (rule.handler, params)
  else
    match matchFrom rule.matchList url 0 params with
    | (none, params) => (none, params)
    | (some ind, params) => (if ind + 1 ≥ url.length then rule.handler else none, params)

/-! ## `routes` -/

/-- The order of the cookies. -/
def cookieLt (c c' : UInt64) : Bool := decide (c < c')

structure Routes (α : Type) where
  map : OperationType → List (Url × Option α)
  rules : OperationType → List (UInt64 × MatchRule α)
  rover : UInt64
  defaultHandler : Option α

namespace Routes

def init : Routes α where
  map _ := []
  rules _ := []
  rover := 0
  defaultHandler := none

/-- `put`, which throws when there is a handler for the url. -/
def put (routes : Routes α) (type : OperationType) (url : Url) (handler : Option α) :
    Option (Routes α) :=
  match Lib.OrdMap.find url (routes.map type) with
  | some _ => none
  | none =>
    some { routes with map := fun t =>
      if t = type then (url, handler) :: routes.map type else routes.map t }

/-- `drop`, and the handler that was registered. -/
def drop (routes : Routes α) (type : OperationType) (url : Url) : Option α × Routes α :=
  ((Lib.OrdMap.find url (routes.map type)).join,
    { routes with map := fun t =>
        if t = type then Lib.OrdMap.erase url (routes.map type) else routes.map t })

/-- `add_cookie`, and the cookie. -/
def addCookie (routes : Routes α) (rule : MatchRule α) (type : OperationType) :
    UInt64 × Routes α :=
  (routes.rover,
    { routes with
      rules := fun t =>
        if t = type then Lib.OrdMap.assign cookieLt routes.rover rule (routes.rules type)
        else routes.rules t
      rover := routes.rover + 1 })

/-- `add` of a rule. -/
def add (routes : Routes α) (rule : MatchRule α) (type : OperationType) : Routes α :=
  (routes.addCookie rule type).2

/-- The rule that `add` makes of a `url` with its path and its parameter. -/
def urlRule (path param : List Char) (handler : Option α) : MatchRule α where
  matchList := .str path :: (if param = [] then [] else [.param param true])
  handler := handler

/-- `add` of a `url`. -/
def addUrl (routes : Routes α) (type : OperationType) (path param : List Char)
    (handler : Option α) : Routes α :=
  routes.add (urlRule path param handler) type

/-- `del_cookie`, and the rule that was registered. -/
def delCookie (routes : Routes α) (cookie : UInt64) (type : OperationType) :
    Option (MatchRule α) × Routes α :=
  (Lib.OrdMap.find cookie (routes.rules type),
    { routes with rules := fun t =>
        if t = type then Lib.OrdMap.erase cookie (routes.rules type) else routes.rules t })

def addDefaultHandler (routes : Routes α) (handler : Option α) : Routes α :=
  { routes with defaultHandler := handler }

def getExactMatch (routes : Routes α) (type : OperationType) (url : Url) : Option α :=
  (Lib.OrdMap.find url (routes.map type)).join

/-- The loop of `get_handler` over the rules: what a rule that fails has written is
cleared. -/
def tryRules (default : Option α) (url : Url) :
    List (UInt64 × MatchRule α) → Parameters → Option α × Parameters
  | [], params => (default, params)
  | (_, rule) :: rules, params =>
    match rule.get url params with
    | (some handler, params) => (some handler, params)
    | (none, _) => tryRules default url rules []

def getHandler (routes : Routes α) (type : OperationType) (url : Url) (params : Parameters) :
    Option α × Parameters :=
  match routes.getExactMatch type url with
  | some handler => (some handler, params)
  | none => tryRules routes.defaultHandler url (routes.rules type) params

def normalizeUrl (url : Url) : Url :=
  if url.length < 2 ∨ url.getLast? ≠ some '/' then url else url.take (url.length - 1)

end Routes

end ActorNet.Http
