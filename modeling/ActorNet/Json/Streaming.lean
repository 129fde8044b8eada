import ActorNet.Json.Encoding

/-!
# Streams and strings agree

A value is written to a stream as `to_json` prints it, so the two outputs of a
`json_base` differ in what the builders add: `json_builder` puts a blank behind
each comma and colon, and `json_stream_builder` opens the object with the first
element that is set. An object without such an element has no opening brace in
the stream.
-/

namespace ActorNet.Json

open ActorNet.Lib.Json

/-! ## Values -/

theorem separated_pos (n : Nat) (ts : List Text) : separated (n + 1) ts = separated 1 ts := by
  induction ts generalizing n with
  | nil => rfl
  | cons t ts ih => rw [separated_succ, separated_succ, ih (n + 1), ih 1]

mutual

theorem Datum.write_eq_toJson : (d : Datum) → d.write = d.toJson
  | .str _ => rfl
  | .integer _ => rfl
  | .real _ _ => rfl
  | .boolean _ => rfl
  | .object _ => rfl
  | .vector ds => by
    rw [Datum.write, Datum.toJson, writeEach_eq ds true]
    cases toJsonEach ds <;> rfl

theorem writeEach_eq : (ds : List Datum) → (first : Bool) →
    writeEach first ds = (toJsonEach ds).map (separated (if first then 0 else 1))
  | [], _ => rfl
  | d :: ds, first => by
    rw [writeEach, toJsonEach, d.write_eq_toJson, writeEach_eq ds false]
    cases d.toJson with
    | error => rfl
    | ok t =>
      cases toJsonEach ds with
      | error => rfl
      | ok ts =>
        cases first with
        | true => rfl
        | false => exact congrArg Except.ok (congrArg (fun u => ',' :: (t ++ u)) (separated_pos 1 ts).symm)

end

/-! ## Literals -/

/-- What is put between the quotation marks is the body of a literal. -/
def Literal.isBody (l : Literal) : Bool := (Lib.Json.body l.body).isSome

/-- The string that the literal denotes, which need not be the one that is meant. -/
def Literal.decoded (l : Literal) : Text := (Lib.Json.body l.body).getD []

theorem faithful_decoded {l : Literal} (isBody : l.isBody = true) :
    Faithful Literal.decoded (fun _ => true) l := by
  obtain ⟨s, decoded⟩ := Option.isSome_iff_exists.mp isBody
  have prints := prints_body decoded
  have same : l.decoded = s := by rw [Literal.decoded, decoded, Option.getD_some]
  rw [Faithful, same]
  exact prints.mono (by simp)

/-! ## Elements -/

/-- Both builders behind a first element: what each adds for the same elements. -/
structure BothAdd (elements : List (Option (Element Datum))) (u w : Text) : Prop where
  prints : PrintsMembers w (denoteElements Literal.decoded elements) True
  same : ∀ {r r' : Text}, compact .outside r = compact .outside r' →
    compact .outside (w ++ r) = compact .outside (u ++ r')

/-- The builder of the stream behind an element. -/
def JsonStreamBuilder.behind (builder : JsonStreamBuilder) (t : Text) : JsonStreamBuilder :=
  { builder with first := false, stream := builder.stream ++ t }

theorem addElement_ok {builder : JsonStreamBuilder} {name value : Text} {d : Datum}
    (open_ : builder.isOpen = true) (first : builder.first = false) (made : d.toJson = .ok value) :
    builder.addElement name d =
      .ok (builder.behind (',' :: ('"' :: (name ++ '"' :: ':' :: value)))) := by
  have written : d.write = .ok value := d.write_eq_toJson.trans made
  simp [JsonStreamBuilder.addElement, JsonStreamBuilder.opened, JsonStreamBuilder.behind, open_,
    first, written, bind, Except.bind, pure, Except.pure]

theorem addElement_init_ok {name value : Text} {d : Datum} (made : d.toJson = .ok value) :
    JsonStreamBuilder.init.addElement name d = .ok
      { first := false, isOpen := true,
        stream := '{' :: '"' :: (name ++ '"' :: ':' :: value) } := by
  have written : d.write = .ok value := d.write_eq_toJson.trans made
  simp [JsonStreamBuilder.addElement, JsonStreamBuilder.opened, JsonStreamBuilder.init, written,
    bind, Except.bind, pure, Except.pure]

variable {elements : List (Option (Element Datum))}

/-- The name and the value of an element that is written. -/
theorem element_prints {element : Element Datum} {value : Text}
    (bodies : ∀ l ∈ Literal.name element.name :: (element.value.literals ++
      literalsElements elements), l.isBody = true) (made : element.value.toJson = .ok value) :
    Prints ('"' :: (element.name ++ ['"'])) (.str (Literal.decoded (.name element.name))) True ∧
      Prints value (element.value.denoteBy Literal.decoded) True := by
  have name := faithful_decoded (bodies _ List.mem_cons_self)
  have value' := element.value.prints (fun l member =>
    faithful_decoded (bodies l (.tail _ (List.mem_append_left _ member)))) made
  exact ⟨Prints.mono name (by simp), value'.mono (by simp)⟩

/-- The same name and value in both outputs. -/
theorem compact_member {name value n : Text} {v : Value}
    (key : Prints ('"' :: (name ++ ['"'])) (.str n) True) (reads : Prints value v True)
    {r r' : Text} (same : compact .outside r = compact .outside r') :
    compact .outside ('"' :: (name ++ '"' :: ':' :: (value ++ r))) =
      compact .outside ('"' :: (name ++ '"' :: ':' :: ' ' :: (value ++ r'))) := by
  have quoted : ∀ rest, '"' :: (name ++ '"' :: rest) = '"' :: (name ++ ['"']) ++ rest := by
    intro rest
    simp
  have key' := fun rest => @Reads.compact_append _ rest _ (key.reads_iff.mpr trivial)
  have value' := fun rest => @Reads.compact_append _ rest _ (reads.reads_iff.mpr trivial)
  rw [quoted (':' :: (value ++ r)), quoted (':' :: ' ' :: (value ++ r')), key', key',
    compact_mark (c := ':') rfl (by decide), compact_mark (c := ':') rfl (by decide),
    compact_blank (c := ' ') rfl (by decide), value', value', same]

/-- The elements behind a first one: `write` succeeds where `to_json` does. -/
theorem addEach_both {builder done : JsonBuilder} {stream : JsonStreamBuilder}
    (bodies : ∀ l ∈ literalsElements elements, l.isBody = true) (first : builder.first = false)
    (open_ : stream.isOpen = true) (first' : stream.first = false)
    (added : addEach builder elements = .ok done) :
    ∃ u w, done.result = builder.result ++ u ∧
      elements.foldlM JsonStreamBuilder.add stream = .ok (stream.behind w) ∧
      BothAdd elements u w := by
  induction elements generalizing builder stream with
  | nil =>
    cases added
    refine ⟨[], [], by simp, ?_, printsMembers_nil, fun same => same⟩
    simp [JsonStreamBuilder.behind, ← first', pure, Except.pure]
  | cons item elements ih =>
    cases item with
    | none =>
      obtain ⟨u, w, result, folded, both⟩ := ih bodies first open_ first' added
      exact ⟨u, w, result, folded, both.prints, both.same⟩
    | some element =>
      rw [literalsElements] at bodies
      rw [addEach] at added
      rw [List.foldlM_cons, JsonStreamBuilder.add]
      split at added
      next unset =>
        rw [if_pos unset] at bodies
        obtain ⟨u, w, result, folded, both⟩ := ih bodies first open_ first' added
        refine ⟨u, w, result, ?_, ?_, both.same⟩
        · rw [if_pos unset]
          exact folded
        · rw [denoteElements, if_pos unset]
          exact both.prints
      next set =>
        rw [if_neg set] at bodies
        split at added
        next value made =>
          rw [if_neg set, addElement_ok open_ first' made]
          obtain ⟨key, value'⟩ := element_prints bodies made
          obtain ⟨u, w, result, folded, both⟩ := @ih _ (stream.behind _)
            (fun l member => bodies l (.tail _ (List.mem_append_right _ member))) rfl open_ rfl added
          refine ⟨',' :: ([' '] ++ '"' :: (element.name ++ '"' :: ':' :: ([' '] ++ value))) ++ u,
            ',' :: ('"' :: (element.name ++ '"' :: ':' :: value)) ++ w, ?_,
            folded.trans ?_, ?_, ?_⟩
          · rw [result, JsonBuilder.add_result first, List.append_assoc]
          · simp only [JsonStreamBuilder.behind, List.append_assoc]
          · rw [denoteElements, if_neg set]
            have all := printsMembers_cons key nothing_isBlank nothing_isBlank value' both.prints
            simpa using all
          · intro r r' same
            have more := compact_member key value' (both.same same)
            simp only [List.cons_append, List.append_assoc, List.nil_append]
            rw [compact_mark (c := ',') rfl (by decide), compact_mark (c := ',') rfl (by decide),
              compact_blank (c := ' ') rfl (by decide), more]
        next => cases added

/-! ## Objects -/

/-- Some element is set. -/
def hasSet (elements : List (Option (Element Datum))) : Bool :=
  elements.any fun element => element.any (·.set)

/-- What `write` gives the stream is JSON, and `to_json` of the object up to
insignificant blanks. -/
def Agrees (elements : List (Option (Element Datum))) : Prop :=
  ∀ t, toJson elements = .ok t →
    ∃ w, write elements = .ok w ∧ Valid w ∧ SameUpToBlanks w t

theorem hasSet_cons (element : Element Datum) (elements : List (Option (Element Datum))) :
    hasSet (some element :: elements) = (element.set || hasSet elements) := rfl

/-- No element is set: only the closing brace is written. -/
theorem write_unset (unset : hasSet elements = false) :
    addEach .init elements = .ok .init ∧
      elements.foldlM JsonStreamBuilder.add .init = .ok .init := by
  induction elements with
  | nil => exact ⟨rfl, rfl⟩
  | cons item elements ih =>
    cases item with
    | none => exact ih unset
    | some element =>
      rw [hasSet_cons, Bool.or_eq_false_iff] at unset
      obtain ⟨added, folded⟩ := ih unset.2
      rw [addEach, List.foldlM_cons, JsonStreamBuilder.add, if_pos unset.1, if_pos unset.1]
      exact ⟨added, folded⟩

/-- From the opening brace on, when some element is set. -/
theorem write_set {done : JsonBuilder}
    (bodies : ∀ l ∈ literalsElements elements, l.isBody = true) (set : hasSet elements = true)
    (added : addEach .init elements = .ok done) :
    ∃ builder, elements.foldlM JsonStreamBuilder.add .init = .ok builder ∧
      Prints builder.done (.obj (denoteElements Literal.decoded elements)) True ∧
      SameUpToBlanks builder.done done.asJson := by
  induction elements with
  | nil => cases set
  | cons item elements ih =>
    cases item with
    | none => exact ih bodies set added
    | some element =>
      rw [hasSet_cons] at set
      rw [literalsElements] at bodies
      rw [addEach] at added
      rw [List.foldlM_cons, JsonStreamBuilder.add, denoteElements]
      split at added
      next unset =>
        rw [unset, Bool.false_or] at set
        rw [if_pos unset] at bodies
        rw [if_pos unset, if_pos unset]
        exact ih bodies set added
      next isSet =>
        rw [if_neg isSet] at bodies
        split at added
        next value made =>
          rw [if_neg isSet, if_neg isSet, addElement_init_ok made]
          obtain ⟨key, value'⟩ := element_prints bodies made
          obtain ⟨u, w, result, folded, both⟩ := @addEach_both _ _ _ ⟨false, true, _⟩
            (fun l member => bodies l (.tail _ (List.mem_append_right _ member))) rfl rfl rfl added
          refine ⟨_, folded, ?_, ?_⟩
          · have all := prints_obj_cons key nothing_isBlank value' both.prints
            simpa [JsonStreamBuilder.done, JsonStreamBuilder.behind] using all
          · have more := compact_member key value' (@BothAdd.same _ _ _ both ['}'] ['}'] rfl)
            have shape : done.asJson = '{' :: '"' :: (element.name ++ '"' :: ':' :: ' ' ::
                (value ++ (u ++ ['}']))) := by
              simp [JsonBuilder.asJson, result, JsonBuilder.add, JsonBuilder.init]
            rw [SameUpToBlanks, shape]
            simp only [JsonStreamBuilder.done, JsonStreamBuilder.behind, List.cons_append,
              List.append_assoc]
            rw [compact_mark (c := '{') rfl (by decide), compact_mark (c := '{') rfl (by decide),
              more]
        next => cases added

/-- The two outputs agree only where some element is set, and they do where some
element is set and what is written between quotation marks are bodies of literals. -/
theorem write_agrees (elements : List (Option (Element Datum))) :
    (Agrees elements → hasSet elements = true) ∧
      (hasSet elements = true → (∀ l ∈ literalsElements elements, l.isBody = true) →
        Agrees elements) := by
  constructor
  · intro agrees
    by_contra unset
    obtain ⟨added, folded⟩ := write_unset (Bool.eq_false_iff.mpr unset)
    obtain ⟨w, written, ⟨j, reads⟩, -⟩ := agrees ['{', '}'] (by rw [toJson, added]; rfl)
    rw [write, folded] at written
    cases written
    exact not_reads_rbrace [] j reads
  · intro set bodies t made
    obtain ⟨done, added, rfl⟩ := Except.map_ok made
    obtain ⟨builder, folded, prints, same⟩ := write_set bodies set added
    have written : write elements = .ok builder.done := by
      rw [write, folded]
      rfl
    exact ⟨builder.done, written, ⟨_, prints.reads_iff.mpr trivial⟩, same⟩

/-- An object with one element that is set and one that is not. -/
theorem write_agrees_name :
    Agrees [some ⟨['u'], false, .boolean true⟩, some ⟨['n'], true, .vector [.str ['v']]⟩] :=
  (write_agrees _).2 rfl (by decide)

/-- An object whose only element is not set. -/
theorem write_unset_disagrees : ¬∀ elements, Agrees elements := by
  intro agrees
  have text : toJson [some ⟨['n'], false, .str []⟩] = .ok ['{', '}'] := rfl
  have closing : write [some ⟨['n'], false, .str []⟩] = .ok ['}'] := rfl
  obtain ⟨w, written, ⟨j, reads⟩, -⟩ := agrees [some ⟨['n'], false, .str []⟩] ['{', '}'] text
  rw [closing] at written
  cases written
  exact not_reads_rbrace [] j reads

end ActorNet.Json
