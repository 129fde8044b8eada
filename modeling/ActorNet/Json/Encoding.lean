import ActorNet.Json.Formatter
import Mathlib.Data.List.TakeWhile

/-!
# What the formatter's text denotes

`Datum.denote` and `Printable.denote` are the JSON values that the program means.
The formatter puts a string between quotation marks as it is, so the text denotes
that value exactly when every string in it is plain: without quotation marks,
backslashes and control characters, the NUL that ends a C string among them.
-/

namespace ActorNet.Json

open ActorNet.Lib.Json

/-- A string that is put between quotation marks: one that `to_json` takes, or
the name of an element. -/
inductive Literal
  | string (s : Text)
  | name (s : Text)
  deriving DecidableEq, Repr

def Literal.meant : Literal → Text
  | .string s => s
  | .name s => s

/-- What is put between the quotation marks. -/
def Literal.body : Literal → Text
  | .string s => cStr s
  | .name s => s

def Literal.isPlain (l : Literal) : Bool := plain l.meant

mutual

/-- The value, when its strings are read so. A real number that is not finite
has no text. -/
def Datum.denoteBy (reading : Literal → Text) : Datum → Value
  | .str s => .str (reading (.string s))
  | .integer n => .num (.ofInt n)
  | .real _ (.finite n) => .num n
  | .real _ _ => .null
  | .boolean b => .bool b
  | .vector elements => .arr (denoteEach reading elements)
  | .object elements => .obj (denoteElements reading elements)

def denoteEach (reading : Literal → Text) : List Datum → List Value
  | [] => []
  | d :: ds => d.denoteBy reading :: denoteEach reading ds

def denoteElements (reading : Literal → Text) :
    List (Option (Element Datum)) → List (Text × Value)
  | [] => []
  | none :: elements => denoteElements reading elements
  | some element :: elements =>
    if element.set = false then denoteElements reading elements
    else (reading (.name element.name), element.value.denoteBy reading) ::
      denoteElements reading elements

end

mutual

/-- Every string that is written, the names of the elements included. -/
def Datum.literals : Datum → List Literal
  | .str s => [.string s]
  | .vector elements => literalsEach elements
  | .object elements => literalsElements elements
  | _ => []

def literalsEach : List Datum → List Literal
  | [] => []
  | d :: ds => d.literals ++ literalsEach ds

def literalsElements : List (Option (Element Datum)) → List Literal
  | [] => []
  | none :: elements => literalsElements elements
  | some element :: elements =>
    if element.set = false then literalsElements elements
    else .name element.name :: (element.value.literals ++ literalsElements elements)

end

mutual

def Printable.denoteBy (reading : Literal → Text) : Printable → Value
  | .datum d => d.denoteBy reading
  | .vector elements => .arr (denotePrinted reading elements)
  | .pairs elements => .arr (denotePairs reading elements)
  | .map entries => .obj (denoteEntries reading entries)

def denotePrinted (reading : Literal → Text) : List Printable → List Value
  | [] => []
  | p :: ps => p.denoteBy reading :: denotePrinted reading ps

/-- A pair in a vector is an object of one member. -/
def denotePairs (reading : Literal → Text) : List (Text × Printable) → List Value
  | [] => []
  | (key, p) :: ps =>
    .obj [(reading (.string key), p.denoteBy reading)] :: denotePairs reading ps

def denoteEntries (reading : Literal → Text) : List (Text × Printable) → List (Text × Value)
  | [] => []
  | (key, p) :: ps => (reading (.string key), p.denoteBy reading) :: denoteEntries reading ps

end

mutual

def Printable.literals : Printable → List Literal
  | .datum d => d.literals
  | .vector elements => literalsPrinted elements
  | .pairs elements => literalsEntries elements
  | .map entries => literalsEntries entries

def literalsPrinted : List Printable → List Literal
  | [] => []
  | p :: ps => p.literals ++ literalsPrinted ps

def literalsEntries : List (Text × Printable) → List Literal
  | [] => []
  | (key, p) :: ps => .string key :: (p.literals ++ literalsEntries ps)

end

/-- The value that is meant: every string is read as itself. -/
def Printable.denote (p : Printable) : Value := p.denoteBy Literal.meant

def Printable.isPlain (p : Printable) : Bool := p.literals.all Literal.isPlain

/-! ## Literals -/

/-- The quoted literal reads so exactly when it passes the check. -/
def Faithful (reading : Literal → Text) (check : Literal → Bool) (l : Literal) : Prop :=
  Prints ('"' :: (l.body ++ ['"'])) (.str (reading l)) (check l = true)

theorem cStr_begins (s : Text) : cStr s <+: s := List.takeWhile_prefix _

theorem cStr_of_plain {s : Text} (even : plain s = true) : cStr s = s := by
  unfold cStr
  rw [List.takeWhile_eq_self_iff]
  intro c member
  have isPlain : Lib.Json.isPlain c = true := List.all_eq_true.mp even c member
  by_contra nul
  have same : c = '\x00' := by simpa using nul
  rw [same] at isPlain
  revert isPlain
  decide

/-- A literal reads as the string that is meant exactly when that is plain. -/
theorem faithful_meant (l : Literal) : Faithful Literal.meant Literal.isPlain l := by
  cases l with
  | string s => exact prints_str (cStr_begins s) cStr_of_plain
  | name s => exact prints_str (List.prefix_refl s) fun _ => rfl

/-! ## Ranges -/

theorem Except.map_ok {ε α β : Type} {f : α → β} {x : Except ε α} {b : β}
    (made : x.map f = .ok b) : ∃ a, x = .ok a ∧ f a = b := by
  cases x with
  | error => cases made
  | ok a => exact ⟨a, rfl, Except.ok.inj made⟩

theorem Except.bind_ok {ε α β : Type} {f : α → Except ε β} {x : Except ε α} {b : β}
    (made : x >>= f = .ok b) : ∃ a, x = .ok a ∧ f a = .ok b := by
  cases x with
  | error => cases made
  | ok a => exact ⟨a, rfl, made⟩

theorem separated_succ (n : Nat) (t : Text) (ts : List Text) :
    separated (n + 1) (t :: ts) = ',' :: (t ++ separated (n + 2) ts) := rfl

/-- An array of the elements, when the text of each is known. -/
theorem prints_array {t : Text} {ts : List Text} {v : Value} {vs : List Value} {ok ok' : Prop}
    (first : Prints t v ok) (more : PrintsElements (separated 1 ts) vs ok') :
    Prints (toJsonRange .array (t :: ts)) (.arr (v :: vs)) (ok ∧ ok') := by
  have shape : toJsonRange .array (t :: ts) = '[' :: (t ++ (separated 1 ts ++ [']'])) := by
    simp [toJsonRange, begin_, end_, separated]
  rw [shape]
  exact prints_arr_cons first more

/-! ## Elements of objects -/

/-- The text that a member behind the first one adds. -/
theorem JsonBuilder.add_result {builder : JsonBuilder} (first : builder.first = false)
    (name str : Text) : (builder.add name str).result =
      builder.result ++ ',' :: ([' '] ++ '"' :: (name ++ '"' :: ':' :: ([' '] ++ str))) := by
  simp [JsonBuilder.add, first]

variable {reading : Literal → Text} {check : Literal → Bool}

theorem space_isBlank : ∀ c ∈ [' '], isBlank c = true := by
  intro c member
  rw [List.mem_singleton.mp member]
  rfl

theorem nothing_isBlank : ∀ c ∈ ([] : Text), isBlank c = true := nofun

mutual

/-- The text of a value, when its literals read so. -/
theorem Datum.prints : (d : Datum) → (∀ l ∈ d.literals, Faithful reading check l) →
    ∀ {t : Text}, d.toJson = .ok t →
      Prints t (d.denoteBy reading) (d.literals.all check = true)
  | .str s, faithful, _, made => by
    cases made
    have literal := faithful (.string s) (by simp [Datum.literals])
    exact Prints.mono literal (by simp [Datum.literals])
  | .integer n, _, _, made => by
    cases made
    exact (prints_num _).mono (by simp [Datum.literals])
  | .real _ (.finite n), _, _, made => by
    cases made
    exact (prints_num n).mono (by simp [Datum.literals])
  | .real _ .infinite, _, _, made => by cases made
  | .real _ .nan, _, _, made => by cases made
  | .boolean b, _, _, made => by
    cases made
    exact (prints_bool b).mono (by simp [Datum.literals])
  | .vector [], _, _, made => by
    cases made
    exact prints_arr_nil.mono (by simp [Datum.literals, literalsEach])
  | .vector (d :: ds), faithful, _, made => by
    obtain ⟨texts, each, rfl⟩ := Except.map_ok made
    obtain ⟨t, head, each⟩ := Except.bind_ok each
    obtain ⟨ts, tail, each⟩ := Except.bind_ok each
    cases each
    have all := prints_array
      (d.prints (fun l member => faithful l (List.mem_append_left _ member)) head)
      (printsEach ds (fun l member => faithful l (List.mem_append_right _ member)) 0 tail)
    exact all.mono (by simp only [Datum.literals, literalsEach, List.all_append, Bool.and_eq_true])
  | .object elements, faithful, _, made => by
    obtain ⟨builder, added, rfl⟩ := Except.map_ok made
    exact (printsAdded elements faithful added).2 rfl

theorem printsEach : (ds : List Datum) → (∀ l ∈ literalsEach ds, Faithful reading check l) →
    ∀ (n : Nat) {ts : List Text}, toJsonEach ds = .ok ts →
      PrintsElements (separated (n + 1) ts) (denoteEach reading ds)
        ((literalsEach ds).all check = true)
  | [], _, _, _, made => by
    cases made
    exact printsElements_nil.mono (by simp [literalsEach])
  | d :: ds, faithful, n, _, made => by
    obtain ⟨t, head, made⟩ := Except.bind_ok made
    obtain ⟨ts, tail, made⟩ := Except.bind_ok made
    cases made
    rw [separated_succ]
    have all := printsElements_cons
      (d.prints (fun l member => faithful l (List.mem_append_left _ member)) head)
      (printsEach ds (fun l member => faithful l (List.mem_append_right _ member)) (n + 1) tail)
    exact all.mono (by simp only [literalsEach, List.all_append, Bool.and_eq_true])

/-- What `json_builder` adds: behind a first member, and from the opening brace. -/
theorem printsAdded : (elements : List (Option (Element Datum))) →
    (∀ l ∈ literalsElements elements, Faithful reading check l) →
    ∀ {builder done : JsonBuilder}, addEach builder elements = .ok done →
      (builder.first = false → ∃ u, done.result = builder.result ++ u ∧
        PrintsMembers u (denoteElements reading elements)
          ((literalsElements elements).all check = true)) ∧
      (builder = .init → Prints done.asJson (.obj (denoteElements reading elements))
        ((literalsElements elements).all check = true))
  | [], _, _, _, made => by
    cases made
    refine ⟨fun _ => ⟨[], by simp, printsMembers_nil.mono (by simp [literalsElements])⟩, ?_⟩
    rintro rfl
    exact prints_obj_nil.mono (by simp [literalsElements])
  | none :: elements, faithful, _, _, made => printsAdded elements faithful made
  | some element :: elements, faithful, builder, done, made => by
    rw [literalsElements] at faithful
    rw [addEach] at made
    rw [denoteElements, literalsElements]
    split at made
    next unset =>
      rw [if_pos unset] at faithful
      rw [if_pos unset, if_pos unset]
      exact printsAdded elements faithful made
    next set =>
      rw [if_neg set] at faithful
      rw [if_neg set, if_neg set]
      split at made
      next str value =>
        have name : Faithful reading check (.name element.name) :=
          faithful _ List.mem_cons_self
        have value' := element.value.prints
          (fun l member => faithful l (.tail _ (List.mem_append_left _ member))) value
        obtain ⟨u, result, members⟩ := (printsAdded elements
          (fun l member => faithful l (.tail _ (List.mem_append_right _ member))) made).1 rfl
        have checks : check (.name element.name) = true ∧
            element.value.literals.all check = true ∧
              (literalsElements elements).all check = true ↔
            (Literal.name element.name :: (element.value.literals ++
              literalsElements elements)).all check = true := by
          rw [List.all_cons, List.all_append, Bool.and_eq_true, Bool.and_eq_true]
        constructor
        · intro first
          rw [JsonBuilder.add_result first] at result
          refine ⟨_, by rw [result, List.append_assoc], ?_⟩
          have all := printsMembers_cons name space_isBlank space_isBlank value' members
          have split := all.mono checks
          simpa only [List.cons_append, List.append_assoc, List.nil_append, Literal.body] using split
        · rintro rfl
          have shape : done.asJson = '{' :: '"' :: (element.name ++ '"' :: ':' ::
              ([' '] ++ (str ++ (u ++ ['}'])))) := by
            simp [JsonBuilder.asJson, result, JsonBuilder.add, JsonBuilder.init]
          rw [shape]
          exact (prints_obj_cons name space_isBlank value' members).mono checks
      · cases made

end

/-! ## Maps and pairs -/

/-- A pair in a vector is an object of one member. -/
theorem prints_pair {t : Text} {v : Value} {ok : Prop} {key : Text}
    (name : Faithful reading check (.string key)) (value : Prints t v ok) :
    Prints (toJsonPair .array key t) (.obj [(reading (.string key), v)])
      (check (.string key) = true ∧ ok) := by
  have all := prints_obj_cons name nothing_isBlank value printsMembers_nil
  have shape : toJsonPair .array key t =
      '{' :: '"' :: (cStr key ++ '"' :: ':' :: ([] ++ (t ++ ([] ++ ['}'])))) := by
    simp [toJsonPair, toJsonString]
  rw [shape]
  exact all.mono (by rw [and_true])

/-- The checks of a key, its value and what follows. -/
theorem all_entry (key : Text) (p : Printable) (ps : List (Text × Printable)) :
    check (.string key) = true ∧ p.literals.all check = true ∧
        (literalsEntries ps).all check = true ↔
      (literalsEntries ((key, p) :: ps)).all check = true := by
  rw [literalsEntries, List.all_cons, List.all_append, Bool.and_eq_true, Bool.and_eq_true]

mutual

theorem Printable.prints : (p : Printable) → (∀ l ∈ p.literals, Faithful reading check l) →
    ∀ {t : Text}, p.toJson = .ok t →
      Prints t (p.denoteBy reading) (p.literals.all check = true)
  | .datum d, faithful, _, made => d.prints faithful made
  | .vector [], _, _, made => by
    cases made
    exact prints_arr_nil.mono (by simp [Printable.literals, literalsPrinted])
  | .vector (p :: ps), faithful, _, made => by
    obtain ⟨texts, each, rfl⟩ := Except.map_ok made
    obtain ⟨t, head, each⟩ := Except.bind_ok each
    obtain ⟨ts, tail, each⟩ := Except.bind_ok each
    cases each
    have all := prints_array
      (p.prints (fun l member => faithful l (List.mem_append_left _ member)) head)
      (printsPrinted ps (fun l member => faithful l (List.mem_append_right _ member)) 0 tail)
    exact all.mono
      (by simp only [Printable.literals, literalsPrinted, List.all_append, Bool.and_eq_true])
  | .pairs [], _, _, made => by
    cases made
    exact prints_arr_nil.mono (by simp [Printable.literals, literalsEntries])
  | .pairs ((key, p) :: ps), faithful, _, made => by
    obtain ⟨texts, each, rfl⟩ := Except.map_ok made
    obtain ⟨t, head, each⟩ := Except.bind_ok each
    obtain ⟨ts, tail, each⟩ := Except.bind_ok each
    cases each
    have value := p.prints
      (fun l member => faithful l (.tail _ (List.mem_append_left _ member))) head
    have all := prints_array (prints_pair (faithful _ List.mem_cons_self) value) (printsPairs ps
      (fun l member => faithful l (.tail _ (List.mem_append_right _ member))) 0 tail)
    exact all.mono (and_assoc.trans (all_entry key p ps))
  | .map [], _, _, made => by
    cases made
    exact prints_obj_nil.mono (by simp [Printable.literals, literalsEntries])
  | .map ((key, p) :: ps), faithful, _, made => by
    obtain ⟨texts, each, rfl⟩ := Except.map_ok made
    obtain ⟨t, head, each⟩ := Except.bind_ok each
    obtain ⟨ts, tail, each⟩ := Except.bind_ok each
    cases each
    have name : Faithful reading check (.string key) := faithful _ List.mem_cons_self
    have value := p.prints
      (fun l member => faithful l (.tail _ (List.mem_append_left _ member))) head
    have all := prints_obj_cons name nothing_isBlank value (printsEntries ps
      (fun l member => faithful l (.tail _ (List.mem_append_right _ member))) 0 tail)
    have shape : toJsonRange .map (toJsonPair .map key t :: ts) = '{' :: '"' :: (cStr key ++
        '"' :: ':' :: ([] ++ (t ++ (separated 1 ts ++ ['}'])))) := by
      simp [toJsonRange, begin_, end_, separated, toJsonPair, toJsonString]
    rw [shape]
    exact all.mono (all_entry key p ps)

theorem printsPrinted : (ps : List Printable) →
    (∀ l ∈ literalsPrinted ps, Faithful reading check l) →
    ∀ (n : Nat) {ts : List Text}, printEach ps = .ok ts →
      PrintsElements (separated (n + 1) ts) (denotePrinted reading ps)
        ((literalsPrinted ps).all check = true)
  | [], _, _, _, made => by
    cases made
    exact printsElements_nil.mono (by simp [literalsPrinted])
  | p :: ps, faithful, n, _, made => by
    obtain ⟨t, head, made⟩ := Except.bind_ok made
    obtain ⟨ts, tail, made⟩ := Except.bind_ok made
    cases made
    rw [separated_succ]
    have all := printsElements_cons
      (p.prints (fun l member => faithful l (List.mem_append_left _ member)) head)
      (printsPrinted ps (fun l member => faithful l (List.mem_append_right _ member)) (n + 1) tail)
    exact all.mono (by simp only [literalsPrinted, List.all_append, Bool.and_eq_true])

theorem printsPairs : (ps : List (Text × Printable)) →
    (∀ l ∈ literalsEntries ps, Faithful reading check l) →
    ∀ (n : Nat) {ts : List Text}, printPairs .array ps = .ok ts →
      PrintsElements (separated (n + 1) ts) (denotePairs reading ps)
        ((literalsEntries ps).all check = true)
  | [], _, _, _, made => by
    cases made
    exact printsElements_nil.mono (by simp [literalsEntries])
  | (key, p) :: ps, faithful, n, _, made => by
    obtain ⟨t, head, made⟩ := Except.bind_ok made
    obtain ⟨ts, tail, made⟩ := Except.bind_ok made
    cases made
    rw [separated_succ]
    have value := p.prints
      (fun l member => faithful l (.tail _ (List.mem_append_left _ member))) head
    have all := printsElements_cons (prints_pair (faithful _ List.mem_cons_self) value)
      (printsPairs ps (fun l member => faithful l (.tail _ (List.mem_append_right _ member)))
        (n + 1) tail)
    exact all.mono (and_assoc.trans (all_entry key p ps))

theorem printsEntries : (ps : List (Text × Printable)) →
    (∀ l ∈ literalsEntries ps, Faithful reading check l) →
    ∀ (n : Nat) {ts : List Text}, printPairs .map ps = .ok ts →
      PrintsMembers (separated (n + 1) ts) (denoteEntries reading ps)
        ((literalsEntries ps).all check = true)
  | [], _, _, _, made => by
    cases made
    exact printsMembers_nil.mono (by simp [literalsEntries])
  | (key, p) :: ps, faithful, n, _, made => by
    obtain ⟨t, head, made⟩ := Except.bind_ok made
    obtain ⟨ts, tail, made⟩ := Except.bind_ok made
    cases made
    have name : Faithful reading check (.string key) := faithful _ List.mem_cons_self
    have value := p.prints
      (fun l member => faithful l (.tail _ (List.mem_append_left _ member))) head
    have all := printsMembers_cons name nothing_isBlank nothing_isBlank value (printsEntries ps
      (fun l member => faithful l (.tail _ (List.mem_append_right _ member))) (n + 1) tail)
    have shape : separated (n + 1) (toJsonPair .map key t :: ts) = ',' :: ([] ++ '"' ::
        (cStr key ++ '"' :: ':' :: ([] ++ (t ++ separated (n + 2) ts)))) := by
      simp [separated, toJsonPair, toJsonString]
    rw [shape]
    exact all.mono (all_entry key p ps)

end

/-! ## The round trip -/

/-- What the formatter prints is a JSON text of the value that is meant, exactly
when every string in it is plain: as a value, an element of a vector, a key of a
map or a member of an object. -/
theorem toJson_reads_iff {p : Printable} {t : Text} (made : p.toJson = .ok t) :
    Reads t p.denote ↔ p.isPlain = true :=
  (p.prints (fun l _ => faithful_meant l) made).reads_iff

/-- A map from a plain key to an object that holds a string and a list. -/
theorem toJson_reads_object :
    Reads "\x7b\"k\":\x7b\"n\": \"v\", \"l\": [\"a\",-7]\x7d\x7d".toList
      (.obj [(['k'], .obj [(['n'], .str ['v']),
        (['l'], .arr [.str ['a'], .num (.ofInt (-7))])])]) := by
  have made : (Printable.map [(['k'], .datum (.object [
      some ⟨['n'], true, .str ['v']⟩,
      some ⟨['u'], false, .boolean true⟩,
      some ⟨['l'], true, .vector [.str ['a'], .integer (-7)]⟩]))]).toJson =
      .ok "\x7b\"k\":\x7b\"n\": \"v\", \"l\": [\"a\",-7]\x7d\x7d".toList := by
    simp [Printable.toJson, printPairs, Datum.toJson, toJsonEach, addEach]
    rfl
  exact (toJson_reads_iff made).mpr (by decide)

/-- A quotation mark in a string ends the literal. -/
theorem toJson_quote_not_reads :
    ¬∀ s : Text, Reads (toJsonString s) (.str s) := by
  intro reads
  have quote := reads ['"']
  revert quote
  decide

end ActorNet.Json
