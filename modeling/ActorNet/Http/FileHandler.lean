import ActorNet.Http.RoutesLookup
import ActorNet.Lib.Paths

/-!
# Files under a document root

`directory_handler`, from the url of a request to the file that is opened. The
file system is a parameter: it tells the type of the entry that a path names, and
nothing is named by the empty path. Nothing on the way looks at `..` segments, and
the document root is put before the path parameter without a slash; where the
opened file lies therefore depends on the text that the parameter adds
(`directory_inside_iff`).
-/

namespace ActorNet.Http

open Lib.Paths (Path Dir Inside Stays resolve)

inductive EntryType
  | directory
  | other
  deriving DecidableEq, Repr

/-- `engine().file_type`. -/
structure FileSystem where
  fileType : Path → Option EntryType
  empty : fileType [] = none

/-- What the file handlers read of a request. -/
structure FileRequest where
  url : Url
  protocolName : List Char
  host : List Char
  deriving DecidableEq, Repr

/-- `get_url`. -/
def FileRequest.getUrl (req : FileRequest) : List Char :=
  req.protocolName ++ "://".toList ++ req.host ++ req.url

/-- The url without its query, as `set_query_param` returns it. -/
def withoutQuery (url : Url) : Url := url.takeWhile (· != '?')

inductive FileReply
  | opened (fileName : Path)
  | movedPermanently (location : List Char)
  | notFound
  | exception
  deriving DecidableEq, Repr

/-- `redirect_if_needed`: where to, if so. -/
def redirectIfNeeded (req : FileRequest) : Option (List Char) :=
  if req.url.length = 0 ∨ req.url.getLast? ≠ some '/' then some (req.getUrl ++ ['/']) else none

structure DirectoryHandler where
  docRoot : Path
  deriving DecidableEq, Repr

/-- `directory_handler::handle`. The value of `path` without its first character
follows the document root; `operator[]` throws when there is no such value. -/
def DirectoryHandler.handle (handler : DirectoryHandler) (fs : FileSystem) (req : FileRequest)
    (params : Parameters) : FileReply :=
  match params.subscript "path".toList with
  | none => .exception
  | some path =>
    let fullPath := handler.docRoot ++ path
    match fs.fileType fullPath with
    | none => .notFound
    | some .directory =>
      match redirectIfNeeded req with
      | some location => .movedPermanently location
      | none => .opened (fullPath ++ "/index.html".toList)
    | some .other => .opened fullPath

/-- A request whose url is tried against the rule of a directory handler, with no
parameters yet. -/
def serve (rule : MatchRule DirectoryHandler) (fs : FileSystem) (req : FileRequest) : FileReply :=
  match rule.get (Routes.normalizeUrl (withoutQuery req.url)) [] with
  | (none, _) => .notFound
  | (some handler, params) => handler.handle fs req params

/-- A rule whose last matcher takes the remainder of the url as `path`. -/
def remainderRule (matchers : List Matcher) (docRoot : Path) : MatchRule DirectoryHandler where
  matchList := matchers ++ [.param "path".toList true]
  handler := some { docRoot := docRoot }

/-! ## The path parameter -/

theorem readAll_append (matchers more : List Matcher) (t : List Char) :
    readAll (matchers ++ more) t =
      match readAll matchers t with
      | none => none
      | some (first, t) => (readAll more t).map fun rest => (first ++ rest.1, rest.2) := by
  induction matchers generalizing t with
  | nil =>
    simp only [List.nil_append, readAll]
    cases readAll more t <;> simp
  | cons matcher matchers ih =>
    rw [List.cons_append, readAll, readAll]
    cases matcher.read t with
    | none => rfl
    | some pair =>
      simp only [ih]
      cases readAll matchers pair.2 with
      | none => rfl
      | some rest => cases h : readAll more rest.2 <;> simp [h]

/-- The last binding of a name counts. -/
theorem Parameters.at_setAll (params : Parameters) (bindings : List (List Char × List Char))
    (name value : List Char) :
    (params.setAll (bindings ++ [(name, value)])).at_ name = some value := by
  rw [Parameters.setAll_append]
  have clear : ∀ p : Parameters,
      (p.filter fun param => decide (param.1 ≠ name)).find? (fun param => decide (param.1 = name)) =
        none := by
    intro p
    rw [List.find?_eq_none]
    intro param member
    have other := (List.mem_filter.mp member).2
    simpa using other
  show ((Parameters.set _ name value).find? _).map Prod.snd = _
  rw [Parameters.set, List.find?_append, clear]
  simp

/-- What the rule gives its handler: the remainder of the url. -/
theorem remainderRule_get (matchers : List Matcher) (docRoot : Path) (url : Url) :
    match readAll matchers url with
    | none => ∃ params, (remainderRule matchers docRoot).get url [] = (none, params)
    | some (_, rest) => ∃ params, (remainderRule matchers docRoot).get url [] =
        (some { docRoot := docRoot }, params) ∧ params.at_ "path".toList = some rest := by
  obtain ⟨params', get⟩ := (remainderRule matchers docRoot).get_eq_read url []
  have nonempty : (remainderRule matchers docRoot).matchList.isEmpty = false := by
    simp [remainderRule]
  have read : (remainderRule matchers docRoot).read url =
      match readAll matchers url with
      | none => none
      | some (bindings, rest) => some (bindings ++ [("path".toList, rest)]) := by
    unfold MatchRule.read
    rw [if_neg (by simp [nonempty]), remainderRule]
    simp only [readAll_append]
    cases readAll matchers url with
    | none => rfl
    | some pair => simp [readAll, Matcher.read]
  rw [get, read]
  cases readAll matchers url with
  | none => exact ⟨params', rfl⟩
  | some pair => exact ⟨_, rfl, Parameters.at_setAll [] pair.1 "path".toList pair.2⟩

/-- The document root with the remainder behind its first character, or the
index of that directory. -/
theorem serve_opened {matchers : List Matcher} {docRoot : Path} {fs : FileSystem}
    {req : FileRequest} {fileName : Path}
    (opened : serve (remainderRule matchers docRoot) fs req = .opened fileName) :
    ∃ bindings c rest,
      readAll matchers (Routes.normalizeUrl (withoutQuery req.url)) = some (bindings, c :: rest) ∧
      (fileName = docRoot ++ rest ∨
        (docRoot ++ rest ≠ [] ∧ fileName = docRoot ++ rest ++ "/index.html".toList)) := by
  have get := remainderRule_get matchers docRoot (Routes.normalizeUrl (withoutQuery req.url))
  unfold serve at opened
  cases reads : readAll matchers (Routes.normalizeUrl (withoutQuery req.url)) with
  | none =>
    rw [reads] at get
    obtain ⟨params, get⟩ := get
    rw [get] at opened
    cases opened
  | some pair =>
    obtain ⟨bindings, value⟩ := pair
    rw [reads] at get
    obtain ⟨params, get, path⟩ := get
    rw [get] at opened
    simp only [DirectoryHandler.handle, Parameters.subscript, path] at opened
    cases value with
    | nil => cases opened
    | cons c rest =>
      refine ⟨bindings, c, rest, rfl, ?_⟩
      simp only at opened
      split at opened
      · cases opened
      next directory =>
        split at opened
        · cases opened
        · cases opened
          refine .inr ⟨fun empty => ?_, rfl⟩
          rw [empty, fs.empty] at directory
          cases directory
      · cases opened
        exact .inl rfl

/-- A file system in which every path but the empty one names a file. -/
def allFiles : FileSystem where
  fileType path := if path = [] then none else some .other
  empty := rfl

/-- Whatever the file system holds, the files that a url opens lie inside the
document root exactly when the remainder of the url, without its first character,
stays there when it is put behind the document root. -/
theorem directory_inside_iff (cwd : Dir) (matchers : List Matcher) (docRoot : Path) (url : Url) :
    (∀ fs req fileName, req.url = url →
        serve (remainderRule matchers docRoot) fs req = .opened fileName →
        Inside cwd docRoot fileName) ↔
      ∀ bindings c rest,
        readAll matchers (Routes.normalizeUrl (withoutQuery url)) = some (bindings, c :: rest) →
        docRoot ++ rest ≠ [] → Stays cwd docRoot rest := by
  constructor
  · intro inside bindings c rest reads some_
    have get := remainderRule_get matchers docRoot (Routes.normalizeUrl (withoutQuery url))
    rw [reads] at get
    obtain ⟨params, get, path⟩ := get
    rw [← Lib.Paths.inside_append_iff]
    refine inside allFiles ⟨url, [], []⟩ _ rfl ?_
    simp only [serve, get, DirectoryHandler.handle, Parameters.subscript, path, allFiles]
    rw [if_neg some_]
  · intro stays fs req fileName same opened
    subst same
    obtain ⟨bindings, c, rest, reads, rfl | ⟨some_, rfl⟩⟩ := serve_opened opened
    · by_cases empty : docRoot ++ rest = []
      · obtain ⟨rfl, rfl⟩ := List.append_eq_nil_iff.mp empty
        exact List.prefix_refl _
      · exact (Lib.Paths.inside_append_iff ..).mpr (stays bindings c rest reads empty)
    · have inside := (Lib.Paths.inside_append_iff ..).mpr (stays bindings c rest reads some_)
      have index : resolve cwd (docRoot ++ rest ++ "/index.html".toList) =
          resolve cwd (docRoot ++ rest) ++ ["index.html".toList] :=
        Lib.Paths.resolve_append_name some_ (by decide) (by decide) (by decide)
      rw [Inside, index]
      exact inside.trans (List.prefix_append ..)

/-- `/www/` under `/static`, and a remainder with two parent segments. -/
theorem directory_escapes :
    ¬∀ (cwd : Dir) (matchers : List Matcher) (docRoot : Path) (fs : FileSystem)
      (req : FileRequest) (fileName : Path),
      serve (remainderRule matchers docRoot) fs req = .opened fileName →
        Inside cwd docRoot fileName := by
  intro inside
  have outside := inside [] [.str "/static".toList] "/www/".toList allFiles
    ⟨"/static/../etc/passwd".toList, [], []⟩ "/www/../etc/passwd".toList (by decide)
  revert outside
  decide

end ActorNet.Http
