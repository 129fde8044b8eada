import ActorNet.Http.RoutesLookup

/-!
# The urls that a rule describes

A rule is a pattern: its strings, and for each parameter a segment, one behind
the other. Every piece ends at a slash or at the end of the url, so a string does
not go on within a segment, and a segment begins with a slash unless it is the
first piece. One slash may be left at the end. A rule without matchers describes
every url. `find_end_param` looks for the next slash behind the first character, so a
parameter also takes a slash with nothing behind it: `empties` says whether a pattern
has such segments.
-/

namespace ActorNet.Http

variable {α : Type}

/-- The url ends, or goes on with a slash. -/
def Stops (t : List Char) : Prop := t = [] ∨ t.head? = some '/'

/-- The pieces of a url for the matchers, with what their parameters are bound to
and what is left of the url. -/
inductive Pattern (empties : Prop) :
    List Matcher → List Char → List (List Char × List Char) → List Char → Prop
  where
  | nil (t : List Char) : Pattern empties [] t [] t
  | str {matchers : List Matcher} {t left : List Char} {bindings : List (List Char × List Char)}
      (cmp : List Char) (stops : Stops t) (more : Pattern empties matchers t bindings left) :
      Pattern empties (.str cmp :: matchers) (cmp ++ t) bindings left
  | segment {matchers : List Matcher} {t left : List Char}
      {bindings : List (List Char × List Char)} (name : List Char) (c : Char) (segment : List Char)
      (within : '/' ∉ segment) (filled : empties ∨ c :: segment ≠ ['/']) (stops : Stops t)
      (more : Pattern empties matchers t bindings left) :
      Pattern empties (.param name false :: matchers) (c :: segment ++ t)
        ((name, c :: segment) :: bindings) left
  | remainder {matchers : List Matcher} {left : List Char}
      {bindings : List (List Char × List Char)} (name t : List Char)
      (more : Pattern empties matchers [] bindings left) :
      Pattern empties (.param name true :: matchers) t ((name, t) :: bindings) left

/-- The rule describes the url up to a slash at its end. -/
def MatchRule.Describes (rule : MatchRule α) (empties : Prop) (url : Url)
    (bindings : List (List Char × List Char)) : Prop :=
  if rule.matchList = [] then bindings = []
  else ∃ left, (left = [] ∨ left = ['/']) ∧ Pattern empties rule.matchList url bindings left

/-! ## What matchers read is what patterns say -/

theorem Pattern.weaken {empties : Prop} {matchers : List Matcher} {t left : List Char}
    {bindings : List (List Char × List Char)} (pattern : Pattern empties matchers t bindings left) :
    Pattern True matchers t bindings left := by
  induction pattern with
  | nil t => exact .nil t
  | str cmp stops _ ih => exact .str cmp stops ih
  | segment name c segment within _ stops _ ih =>
    exact .segment name c segment within (.inl trivial) stops ih
  | remainder name t _ ih => exact .remainder name t ih

theorem MatchRule.Describes.weaken {rule : MatchRule α} {empties : Prop} {url : Url}
    {bindings : List (List Char × List Char)} (describes : rule.Describes empties url bindings) :
    rule.Describes True url bindings := by
  unfold MatchRule.Describes at *
  split at describes
  · rwa [if_pos ‹_›]
  · rw [if_neg ‹_›]
    obtain ⟨left, slash, pattern⟩ := describes
    exact ⟨left, slash, pattern.weaken⟩

theorem takeWhile_segment {segment t : List Char} (within : '/' ∉ segment) (stops : Stops t) :
    (segment ++ t).takeWhile (· != '/') = segment ∧ (segment ++ t).dropWhile (· != '/') = t := by
  have all : ∀ c ∈ segment, (c != '/') = true := by
    intro c member
    have other : c ≠ '/' := by
      rintro rfl
      exact within member
    simpa using other
  have ends : t.takeWhile (· != '/') = [] ∧ t.dropWhile (· != '/') = t := by
    cases t with
    | nil => exact ⟨rfl, rfl⟩
    | cons d t =>
      rcases stops with nothing | slash
      · cases nothing
      · cases slash
        exact ⟨rfl, rfl⟩
  rw [List.takeWhile_append_of_pos all, List.dropWhile_append_of_pos all, ends.1, ends.2,
    List.append_nil]
  exact ⟨rfl, rfl⟩

theorem stops_dropWhile (t : List Char) : Stops (t.dropWhile (· != '/')) := by
  induction t with
  | nil => exact .inl rfl
  | cons c t ih =>
    by_cases slash : c = '/'
    · subst slash
      exact .inr rfl
    · rw [List.dropWhile_cons_of_pos (by simpa using slash)]
      exact ih

theorem not_mem_takeWhile (t : List Char) : '/' ∉ t.takeWhile (· != '/') := by
  intro member
  have other := List.all_eq_true.mp List.all_takeWhile _ member
  cases other

theorem Pattern.readAll {matchers : List Matcher} {t left : List Char}
    {bindings : List (List Char × List Char)} (pattern : Pattern True matchers t bindings left) :
    readAll matchers t = some (bindings, left) := by
  induction pattern with
  | nil t => rfl
  | @str matchers t left bindings cmp stops more ih =>
    have begins : cmp.isPrefixOf (cmp ++ t) = true :=
      List.isPrefixOf_iff_prefix.mpr (List.prefix_append _ _)
    have read : (Matcher.str cmp).read (cmp ++ t) = some ([], t) := by
      rw [Matcher.read, List.drop_left]
      exact if_pos ⟨begins, stops⟩
    simp only [Http.readAll, read, ih]
    rfl
  | @segment matchers t left bindings name c segment within _ stops more ih =>
    obtain ⟨taken, dropped⟩ := takeWhile_segment within stops
    have read : (Matcher.param name false).read (c :: segment ++ t) =
        some ([(name, c :: segment)], t) := by
      rw [List.cons_append, Matcher.read, taken, dropped]
    simp only [Http.readAll, read, ih]
    rfl
  | remainder name t more ih =>
    simp only [Http.readAll, Matcher.read, ih]
    rfl

theorem pattern_of_readAll {matchers : List Matcher} {t left : List Char}
    {bindings : List (List Char × List Char)} (reads : readAll matchers t = some (bindings, left)) :
    Pattern True matchers t bindings left := by
  induction matchers generalizing t bindings with
  | nil =>
    cases reads
    exact .nil _
  | cons matcher matchers ih =>
    rw [Http.readAll] at reads
    split at reads
    · cases reads
    · rename_i first rest read
      obtain ⟨⟨more, tail⟩, all, same⟩ := Option.map_eq_some_iff.mp reads
      cases same
      cases matcher with
      | str cmp =>
        rw [Matcher.read] at read
        split at read
        · rename_i found
          obtain ⟨begins, stops⟩ := found
          obtain ⟨behind, rfl⟩ := List.isPrefixOf_iff_prefix.mp begins
          rw [List.drop_left] at read stops
          cases read
          exact .str cmp stops (ih all)
        · cases read
      | param name entirePath =>
        cases entirePath with
        | true =>
          cases read
          exact .remainder name t (ih all)
        | false =>
          cases t with
          | nil => cases read
          | cons c t =>
            cases read
            have whole : c :: t = c :: t.takeWhile (· != '/') ++ t.dropWhile (· != '/') := by
              rw [List.cons_append, List.takeWhile_append_dropWhile]
            rw [whole]
            exact .segment name c _ (not_mem_takeWhile t) (.inl trivial) (stops_dropWhile t)
              (ih all)

/-- What is left behind a piece begins with a slash if it is not empty. -/
theorem Pattern.stops {matchers : List Matcher} {t left : List Char}
    {bindings : List (List Char × List Char)} (pattern : Pattern True matchers t bindings left)
    (here : matchers ≠ [] ∨ Stops t) : Stops left := by
  induction pattern with
  | nil t => exact here.resolve_left (fun some => some rfl)
  | str _ stops _ ih => exact ih (.inr stops)
  | segment _ _ _ _ _ stops _ ih => exact ih (.inr stops)
  | remainder _ _ _ ih => exact ih (.inr (.inl rfl))

/-- In a url that begins with a slash, so does every segment. -/
theorem Pattern.slashes {matchers : List Matcher} {t left : List Char}
    {bindings : List (List Char × List Char)} (pattern : Pattern True matchers t bindings left)
    (stops : Stops t) : ∀ binding ∈ bindings, Stops binding.2 := by
  induction pattern with
  | nil _ => exact nofun
  | str _ behind _ ih => exact ih behind
  | segment _ c _ _ _ behind _ ih =>
    intro binding member
    rcases List.mem_cons.mp member with rfl | member
    · rcases stops with nothing | slash
      · cases nothing
      · exact .inr slash
    · exact ih behind binding member
  | remainder _ _ _ ih =>
    intro binding member
    rcases List.mem_cons.mp member with rfl | member
    · exact stops
    · exact ih (.inl rfl) binding member

theorem MatchRule.Describes.slashes {rule : MatchRule α} {url : Url}
    {bindings : List (List Char × List Char)} (describes : rule.Describes True url bindings)
    (stops : Stops url) : ∀ binding ∈ bindings, Stops binding.2 := by
  unfold MatchRule.Describes at describes
  split at describes
  · rw [describes]
    exact nofun
  · obtain ⟨_, _, pattern⟩ := describes
    exact pattern.slashes stops

theorem describes_iff_read (rule : MatchRule α) (url : Url)
    (bindings : List (List Char × List Char)) :
    rule.Describes True url bindings ↔ rule.read url = some bindings := by
  unfold MatchRule.Describes MatchRule.read
  by_cases empty : rule.matchList = []
  · rw [if_pos empty, if_pos (by rw [empty]; rfl), Option.some.injEq]
    exact eq_comm
  · rw [if_neg empty, if_neg (by simpa using empty)]
    constructor
    · rintro ⟨left, slash, pattern⟩
      rw [pattern.readAll]
      -- the rule leaves one character at most, and that is the slash
      apply if_pos
      rcases slash with rfl | rfl
      · exact Nat.zero_le _
      · exact Nat.le_refl _
    · intro reads
      split at reads
      · cases reads
      · rename_i bindings' left all
        split at reads
        · rename_i short
          cases reads
          have pattern := pattern_of_readAll all
          refine ⟨left, ?_, pattern⟩
          -- one character that is left stops a piece, so it is a slash
          match left, short, pattern.stops (.inl empty) with
          | [], _, _ => exact .inl rfl
          | [c], _, .inr slash =>
            cases slash
            exact .inr rfl
        · cases reads

/-! ## Bindings -/

theorem at_set (params : Parameters) (key value name : List Char) :
    (params.set key value).at_ name = if name = key then some value else params.at_ name := by
  unfold Parameters.at_ Parameters.set
  rw [List.find?_append, List.find?_filter]
  by_cases same : name = key
  · subst same
    rw [if_pos rfl]
    have others : params.find? (fun param => decide (decide (param.1 ≠ name) = true ∧
        decide (param.1 = name) = true)) = none := by
      rw [List.find?_eq_none]
      intro param _
      simp
    rw [others]
    simp
  · rw [if_neg same]
    -- a value of another name is not replaced
    have kept : params.find? (fun param => decide (decide (param.1 ≠ key) = true ∧
        decide (param.1 = name) = true)) = params.find? fun param => decide (param.1 = name) := by
      congr 1
      funext param
      by_cases this : param.1 = name
      · simp [this, same]
      · simp [this]
    rw [kept]
    simp [Ne.symm same]

/-- The last binding of a name counts. -/
theorem at_setAll (params : Parameters) (bindings : List (List Char × List Char))
    (name : List Char) :
    (params.setAll bindings).at_ name = (bindings.reverse.lookup name).or (params.at_ name) := by
  induction bindings generalizing params with
  | nil => rfl
  | cons binding bindings ih =>
    show ((params.set binding.1 binding.2).setAll bindings).at_ name = _
    rw [ih, at_set, List.reverse_cons, List.lookup_append, Option.or_assoc, List.lookup_singleton]
    by_cases same : name = binding.1
    · subst same
      simp
    · simp [same]

/-! ## Matching -/

/-- A rule returns its handler for the urls that it describes, and then each
parameter has the last segment that its name is bound to; the segments begin with
a slash if the url does. For a url that it would not describe with empty segments
either it returns none. -/
theorem get_describes (rule : MatchRule α) (url : Url) (params : Parameters) :
    (∀ bindings, rule.Describes False url bindings →
      (rule.get url params).1 = rule.handler ∧
      (∀ name, (rule.get url params).2.at_ name =
        (bindings.reverse.lookup name).or (params.at_ name)) ∧
      (Stops url → ∀ binding ∈ bindings, Stops binding.2)) ∧
    ((∀ bindings, ¬ rule.Describes True url bindings) → (rule.get url params).1 = none) := by
  obtain ⟨params', get⟩ := rule.get_eq_read url params
  constructor
  · intro bindings describes
    have describes := describes.weaken
    rw [(describes_iff_read rule url bindings).mp describes] at get
    rw [get]
    exact ⟨rfl, at_setAll params bindings, describes.slashes⟩
  · intro nothing
    cases reads : rule.read url with
    | none => rw [get, reads]
    | some bindings => exact absurd ((describes_iff_read rule url bindings).mpr reads) (nothing _)

/-- `/a` and `b` do not make up `/ab`; a rule without matchers takes everything;
and a parameter in front takes a segment without its slash. -/
theorem get_pieces :
    (MatchRule.get ⟨[.str ['/', 'a'], .str ['b']], some ()⟩ (['/', 'a'] ++ ['b']) []).1 = none ∧
      (MatchRule.get ⟨[], some ()⟩ ['/', 'x'] []).1 = some () ∧
      MatchRule.get ⟨[.param ['p'] false], some ()⟩ ['x'] [] = (some (), [(['p'], ['x'])]) := by
  decide

end ActorNet.Http
