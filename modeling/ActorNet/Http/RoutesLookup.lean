import ActorNet.Http.Routes

/-!
# What `get_handler` finds

The operations on `routes`, latest first, say what is registered: `exactOf` and
`ruleOf` look for the last operation on a url or a cookie, and `MatchRule.read`
is what a rule binds when it matches, read off the rest of the url. `get_handler`
finds the exact match, the first rule that matches or the default handler, with
the bindings of that rule alone (`getHandler_history`).
-/

namespace ActorNet.Http

open Lib.OrdMap (find erase assign Sorted Strict find_assign find_cons find_erase)

variable {α : Type}

/-! ## Reading a url -/

/-- What a matcher takes from the front of the rest of the url: the bindings, and
the rest behind it. -/
def Matcher.read : Matcher → List Char → Option (List (List Char × List Char) × List Char)
  | .str cmp, t =>
    if cmp.isPrefixOf t ∧ (t.drop cmp.length = [] ∨ (t.drop cmp.length).head? = some '/') then
      some ([], t.drop cmp.length)
    else none
  | .param name true, t => some ([(name, t)], [])
  | .param _ false, [] => none
  | .param name false, c :: t =>
    some ([(name, c :: t.takeWhile (· != '/'))], t.dropWhile (· != '/'))

def readAll : List Matcher → List Char → Option (List (List Char × List Char) × List Char)
  | [], t => some ([], t)
  | matcher :: matchers, t =>
    match matcher.read t with
    | none => none
    | some (first, t) => (readAll matchers t).map fun more => (first ++ more.1, more.2)

/-- The bindings of a rule that matches the url: at most one character is left.
A rule without matchers matches every url. -/
def MatchRule.read (rule : MatchRule α) (url : Url) : Option (List (List Char × List Char)) :=
  if rule.matchList.isEmpty then some []
  else
    match readAll rule.matchList url with
    | none => none
    | some (bindings, rest) => if rest.length ≤ 1 then some bindings else none

/-- The parameters that the bindings make, the last of a name counting. -/
def Parameters.setAll (params : Parameters) (bindings : List (List Char × List Char)) :
    Parameters := bindings.foldl (fun params binding => params.set binding.1 binding.2) params

theorem Parameters.setAll_append (params : Parameters)
    (first more : List (List Char × List Char)) :
    params.setAll (first ++ more) = (params.setAll first).setAll more :=
  List.foldl_append ..

/-- The next slash, and the characters before it. -/
theorem findIdx?_slash (t : List Char) :
    match t.findIdx? (· == '/') with
    | none => t.takeWhile (· != '/') = t ∧ t.dropWhile (· != '/') = []
    | some pos => t.takeWhile (· != '/') = t.take pos ∧ t.dropWhile (· != '/') = t.drop pos ∧
        pos ≤ t.length := by
  induction t with
  | nil => exact ⟨rfl, rfl⟩
  | cons c t ih =>
    rw [List.findIdx?_cons]
    by_cases slash : c = '/'
    · subst slash
      exact ⟨rfl, rfl, Nat.zero_le _⟩
    · have other : (c == '/') = false := by simpa using slash
      have other' : (c != '/') = true := by simpa using slash
      rw [other]
      cases found : t.findIdx? (· == '/') with
      | none =>
        rw [found] at ih
        simpa [List.takeWhile_cons, List.dropWhile_cons, other'] using ih
      | some pos =>
        rw [found] at ih
        simpa [List.takeWhile_cons, List.dropWhile_cons, other'] using ih

/-- A matcher at a position reads the rest of the url from there. -/
theorem Matcher.match_eq_read (matcher : Matcher) {url t : List Char} (suffix : t <:+ url)
    (params : Parameters) :
    (matcher.match_ url (url.length - t.length) params =
      match matcher.read t with
      | none => (none, params)
      | some (bindings, rest) => (some (url.length - rest.length), params.setAll bindings)) ∧
    ∀ bindings rest, matcher.read t = some (bindings, rest) → rest <:+ t := by
  obtain ⟨front, rfl⟩ := suffix
  have place : (front ++ t).length - t.length = front.length := by simp
  rw [place]
  cases matcher with
  | str cmp =>
    constructor
    · by_cases begins : cmp <+: t
      · obtain ⟨rest, rfl⟩ := begins
        have end_ : (front ++ (cmp ++ rest)).length = cmp.length + front.length ↔ rest = [] := by
          rw [← List.length_eq_zero_iff]
          simp only [List.length_append]
          omega
        have slash : (front ++ (cmp ++ rest))[cmp.length + front.length]? = rest.head? := by
          rw [← List.append_assoc, List.getElem?_append_right (by simp; omega)]
          simp [Nat.add_comm, List.head?_eq_getElem?]
        have long : (front ++ (cmp ++ rest)).length ≥ cmp.length + front.length := by
          simp only [List.length_append]
          omega
        simp only [Matcher.match_, Matcher.read, slash, end_, List.drop_left, long, true_and]
        by_cases stops : rest = [] ∨ rest.head? = some '/'
        · have behind : cmp.length + front.length = (front ++ (cmp ++ rest)).length - rest.length := by
            simp only [List.length_append]
            omega
          simp [stops, behind, Parameters.setAll]
        · simp [stops]
      · simp [Matcher.match_, Matcher.read, begins]
    · intro bindings rest reads
      simp only [Matcher.read] at reads
      split at reads
      · cases reads
        exact List.drop_suffix ..
      · cases reads
  | param name entirePath =>
    cases entirePath with
    | true =>
      constructor
      · simp only [Matcher.match_, findEndParam, Matcher.read]
        by_cases empty : t = []
        · subst empty
          simp [Parameters.setAll]
        · simp [empty, Parameters.setAll]
      · intro bindings rest reads
        cases reads
        exact List.nil_suffix
    | false =>
      cases t with
      | nil =>
        constructor
        · have behind : front.drop (front.length + 1) = [] :=
            List.drop_eq_nil_of_le (Nat.le_succ _)
          simp [Matcher.match_, findEndParam, Matcher.read, behind]
        · intro bindings rest reads
          cases reads
      | cons c t =>
        constructor
        · have behind : (front ++ c :: t).drop (front.length + 1) = t := by
            rw [← List.drop_drop, List.drop_left]
            rfl
          have slash := findIdx?_slash t
          simp only [Matcher.match_, findEndParam, Matcher.read, behind]
          cases found : t.findIdx? (· == '/') with
          | none =>
            rw [found] at slash
            simp [slash.1, slash.2, Parameters.setAll]
          | some pos =>
            rw [found] at slash
            obtain ⟨taken, dropped, inside⟩ := slash
            have last : ¬front.length + 1 + pos = front.length := by omega
            have count : front.length + 1 + pos - front.length = pos + 1 := by omega
            simp only [Bool.false_eq_true, if_false, last, taken, dropped, count]
            simp [Parameters.setAll]
            omega
        · intro bindings rest reads
          cases reads
          exact (List.dropWhile_suffix _).trans (List.suffix_cons c t)

/-- The matchers one after the other. -/
theorem matchFrom_eq_read (matchers : List Matcher) {url t : List Char} (suffix : t <:+ url)
    (params : Parameters) :
    ∃ params', matchFrom matchers url (url.length - t.length) params =
      match readAll matchers t with
      | none => (none, params')
      | some (bindings, rest) => (some (url.length - rest.length), params.setAll bindings) := by
  induction matchers generalizing t params with
  | nil => exact ⟨[], rfl⟩
  | cons matcher matchers ih =>
    obtain ⟨one, rests⟩ := matcher.match_eq_read suffix params
    simp only [matchFrom, one, readAll]
    cases first : matcher.read t with
    | none => exact ⟨params, rfl⟩
    | some pair =>
      obtain ⟨bindings, rest⟩ := pair
      obtain ⟨params', more⟩ := ih ((rests _ _ first).trans suffix) (params.setAll bindings)
      refine ⟨params', more.trans ?_⟩
      simp only
      cases readAll matchers rest with
      | none => rfl
      | some pair => simp [Parameters.setAll_append]

theorem readAll_suffix {matchers : List Matcher} {t rest : List Char}
    {bindings : List (List Char × List Char)} (reads : readAll matchers t = some (bindings, rest)) :
    rest <:+ t := by
  induction matchers generalizing t bindings with
  | nil =>
    cases reads
    exact List.suffix_refl _
  | cons matcher matchers ih =>
    unfold readAll at reads
    split at reads
    · cases reads
    next first t' one =>
      obtain ⟨more, tail, same⟩ := Option.map_eq_some_iff.mp reads
      cases same
      exact (ih tail).trans ((matcher.match_eq_read (List.suffix_refl t) []).2 _ _ one)

/-- A rule that matches returns its handler, and its bindings are set. -/
theorem MatchRule.get_eq_read (rule : MatchRule α) (url : Url) (params : Parameters) :
    ∃ params', rule.get url params =
      match rule.read url with
      | none => (none, params')
      | some bindings => (rule.handler, params.setAll bindings) := by
  unfold MatchRule.get MatchRule.read
  by_cases empty : rule.matchList.isEmpty = true
  · exact ⟨[], by simp [empty, Parameters.setAll]⟩
  · rw [if_neg empty, if_neg empty]
    obtain ⟨params', all⟩ := matchFrom_eq_read rule.matchList (List.suffix_refl url) params
    rw [Nat.sub_self] at all
    rw [all]
    cases reads : readAll rule.matchList url with
    | none => exact ⟨params', rfl⟩
    | some pair =>
      obtain ⟨bindings, rest⟩ := pair
      by_cases short : rest.length ≤ 1
      · have end_ : url.length - rest.length + 1 ≥ url.length := by omega
        exact ⟨[], by simp only [if_pos short, if_pos end_]⟩
      · have inside : rest.length ≤ url.length := (readAll_suffix reads).length_le
        have more : ¬url.length - rest.length + 1 ≥ url.length := by omega
        exact ⟨params.setAll bindings, by simp only [if_neg short, if_neg more]⟩

/-! ## Histories -/

inductive Operation (α : Type)
  | put (type : OperationType) (url : Url) (handler : Option α)
  | drop (type : OperationType) (url : Url)
  | add (rule : MatchRule α) (type : OperationType)
  | addUrl (type : OperationType) (path param : List Char) (handler : Option α)
  | addCookie (rule : MatchRule α) (type : OperationType)
  | delCookie (cookie : UInt64) (type : OperationType)
  | addDefaultHandler (handler : Option α)

/-- One operation. A `put` that throws leaves the routes as they are. -/
def Routes.apply (routes : Routes α) : Operation α → Routes α
  | .put type url handler => (routes.put type url handler).getD routes
  | .drop type url => (routes.drop type url).2
  | .add rule type => routes.add rule type
  | .addUrl type path param handler => routes.addUrl type path param handler
  | .addCookie rule type => (routes.addCookie rule type).2
  | .delCookie cookie type => (routes.delCookie cookie type).2
  | .addDefaultHandler handler => routes.addDefaultHandler handler

/-- The routes behind a history. -/
def Routes.run (history : List (Operation α)) : Routes α := history.foldl Routes.apply .init

/-- The rule that an operation adds. -/
def Operation.added : Operation α → Option (OperationType × MatchRule α)
  | .add rule type => some (type, rule)
  | .addUrl type path param handler => some (type, Routes.urlRule path param handler)
  | .addCookie rule type => some (type, rule)
  | _ => none

/-! What is registered, from the operations with the latest first. -/

/-- The handler pointer under a url: the first `put` since the last `drop`. -/
def exactOf (type : OperationType) (url : Url) : List (Operation α) → Option (Option α)
  | [] => none
  | .put type' url' handler :: past =>
    if type' = type ∧ url' = url then some ((exactOf type url past).getD handler)
    else exactOf type url past
  | .drop type' url' :: past =>
    if type' = type ∧ url' = url then none else exactOf type url past
  | _ :: past => exactOf type url past

/-- The next cookie: one for each rule that was added. -/
def nextCookie : List (Operation α) → UInt64
  | [] => 0
  | operation :: past => if operation.added.isSome then nextCookie past + 1 else nextCookie past

/-- The rule under a cookie: the one that was added with it and not deleted. -/
def ruleOf (type : OperationType) (cookie : UInt64) : List (Operation α) → Option (MatchRule α)
  | [] => none
  | .delCookie cookie' type' :: past =>
    if type' = type ∧ cookie' = cookie then none else ruleOf type cookie past
  | operation :: past =>
    match operation.added with
    | none => ruleOf type cookie past
    | some (type', rule) =>
      if type' = type ∧ nextCookie past = cookie then some rule else ruleOf type cookie past

def defaultOf : List (Operation α) → Option α
  | [] => none
  | .addDefaultHandler handler :: _ => handler
  | _ :: past => defaultOf past

/-- The routes hold what is registered. -/
structure Holds (routes : Routes α) (past : List (Operation α)) : Prop where
  exact_ : ∀ type url, find url (routes.map type) = exactOf type url past
  rule : ∀ type cookie, find cookie (routes.rules type) = ruleOf type cookie past
  sorted : ∀ type, Sorted cookieLt (routes.rules type)
  rover : routes.rover = nextCookie past
  default : routes.defaultHandler = defaultOf past

theorem cookieLt_strict : Strict cookieLt where
  irrefl c := by simp [cookieLt]
  trans a b c first second := by
    simp only [cookieLt, decide_eq_true_eq] at first second ⊢
    exact UInt64.lt_trans first second
  total a b first second := by
    simp only [cookieLt, decide_eq_false_iff_not, UInt64.not_lt] at first second
    exact UInt64.le_antisymm second first

variable {routes : Routes α} {past : List (Operation α)}

/-- A rule is added under the next cookie. -/
theorem Holds.addCookie (holds : Holds routes past) {operation : Operation α}
    {rule : MatchRule α} {type : OperationType} (added : operation.added = some (type, rule)) :
    Holds (routes.addCookie rule type).2 (operation :: past) := by
  have next : nextCookie (operation :: past) = nextCookie past + 1 := by
    rw [nextCookie, added]
    rfl
  have one : ∀ t c, ruleOf t c (operation :: past) =
      if type = t ∧ nextCookie past = c then some rule else ruleOf t c past := by
    intro t c
    cases operation <;> cases added <;> rfl
  refine ⟨fun t u => ?_, fun t c => ?_, fun t => ?_, ?_, ?_⟩
  · have same : exactOf t u (operation :: past) = exactOf t u past := by
      cases operation <;> first | rfl | cases added
    rw [same]
    exact holds.exact_ t u
  · rw [one]
    by_cases here : t = type
    · subst here
      simp only [Routes.addCookie, if_true, find_assign cookieLt_strict, holds.rover, holds.rule,
        true_and]
    · have other : ¬(type = t ∧ nextCookie past = c) := fun both => here both.1.symm
      simp only [Routes.addCookie, if_neg here, if_neg other]
      exact holds.rule t c
  · by_cases here : t = type
    · simp only [Routes.addCookie, if_pos here]
      exact (holds.sorted type).assign cookieLt_strict
    · simp only [Routes.addCookie, if_neg here]
      exact holds.sorted t
  · rw [next, ← holds.rover]
    rfl
  · have same : defaultOf (operation :: past) = defaultOf past := by
      cases operation <;> first | rfl | cases added
    rw [same]
    exact holds.default

theorem Holds.put (holds : Holds routes past) (type : OperationType) (url : Url)
    (handler : Option α) :
    Holds ((routes.put type url handler).getD routes) (.put type url handler :: past) := by
  have before := holds.exact_ type url
  unfold Routes.put
  cases found : find url (routes.map type) with
  | some handler' =>
    rw [found] at before
    refine ⟨fun t u => ?_, holds.rule, holds.sorted, holds.rover, holds.default⟩
    rw [exactOf]
    by_cases here : type = t ∧ url = u
    · obtain ⟨rfl, rfl⟩ := here
      rw [if_pos ⟨rfl, rfl⟩, ← before]
      exact found
    · rw [if_neg here]
      exact holds.exact_ t u
  | none =>
    rw [found] at before
    refine ⟨fun t u => ?_, holds.rule, holds.sorted, holds.rover, holds.default⟩
    rw [exactOf]
    by_cases type' : t = type
    · subst type'
      simp only [Option.getD_some, if_true, find_cons, true_and]
      by_cases url' : url = u
      · subst url'
        rw [if_pos rfl, if_pos rfl, ← before]
        rfl
      · rw [if_neg url', if_neg url']
        exact holds.exact_ t u
    · have other : ¬(type = t ∧ url = u) := fun both => type' both.1.symm
      simp only [Option.getD_some, if_neg type', if_neg other]
      exact holds.exact_ t u

theorem Holds.drop (holds : Holds routes past) (type : OperationType) (url : Url) :
    Holds (routes.drop type url).2 (.drop type url :: past) := by
  refine ⟨fun t u => ?_, holds.rule, holds.sorted, holds.rover, holds.default⟩
  rw [exactOf]
  by_cases type' : t = type
  · subst type'
    simp only [Routes.drop, if_true, find_erase, true_and]
    by_cases url' : url = u
    · rw [if_pos url', if_pos url']
    · rw [if_neg url', if_neg url']
      exact holds.exact_ t u
  · have other : ¬(type = t ∧ url = u) := fun both => type' both.1.symm
    simp only [Routes.drop, if_neg type', if_neg other]
    exact holds.exact_ t u

theorem Holds.delCookie (holds : Holds routes past) (cookie : UInt64) (type : OperationType) :
    Holds (routes.delCookie cookie type).2 (.delCookie cookie type :: past) := by
  refine ⟨holds.exact_, fun t c => ?_, fun t => ?_, holds.rover, holds.default⟩
  · rw [ruleOf]
    by_cases type' : t = type
    · subst type'
      simp only [Routes.delCookie, if_true, find_erase, true_and]
      by_cases cookie' : cookie = c
      · rw [if_pos cookie', if_pos cookie']
      · rw [if_neg cookie', if_neg cookie']
        exact holds.rule t c
    · have other : ¬(type = t ∧ cookie = c) := fun both => type' both.1.symm
      simp only [Routes.delCookie, if_neg type', if_neg other]
      exact holds.rule t c
  · by_cases type' : t = type
    · simp only [Routes.delCookie, if_pos type']
      exact (holds.sorted type).erase
    · simp only [Routes.delCookie, if_neg type']
      exact holds.sorted t

/-- One operation. -/
theorem Holds.apply (holds : Holds routes past) (operation : Operation α) :
    Holds (routes.apply operation) (operation :: past) := by
  cases operation with
  | put type url handler => exact holds.put type url handler
  | drop type url => exact holds.drop type url
  | add rule type => exact holds.addCookie rfl
  | addUrl type path param handler => exact holds.addCookie rfl
  | addCookie rule type => exact holds.addCookie rfl
  | delCookie cookie type => exact holds.delCookie cookie type
  | addDefaultHandler handler =>
    exact ⟨holds.exact_, holds.rule, holds.sorted, holds.rover, rfl⟩

/-- Any history. -/
theorem run_holds (history : List (Operation α)) : Holds (Routes.run history) history.reverse := by
  induction history using List.reverseRecOn with
  | nil => exact ⟨fun _ _ => rfl, fun _ _ => rfl, fun _ => List.Pairwise.nil, rfl, rfl⟩
  | append_singleton history operation ih =>
    rw [Routes.run, List.foldl_append, List.reverse_append]
    exact ih.apply operation

/-! ## The handler -/

/-- The rule has a handler and matches the url. -/
def MatchRule.Matches (rule : MatchRule α) (url : Url) : Prop :=
  rule.handler.isSome = true ∧ (rule.read url).isSome = true

theorem get_of_not_matches {rule : MatchRule α} {url : Url} {params : Parameters}
    (fails : ¬rule.Matches url) : ∃ params', rule.get url params = (none, params') := by
  obtain ⟨params', get⟩ := rule.get_eq_read url params
  cases reads : rule.read url with
  | none => exact ⟨params', by rw [get, reads]⟩
  | some bindings =>
    have no : rule.handler = none := by
      by_contra handler
      exact fails ⟨Option.isSome_iff_ne_none.mpr handler, by rw [reads]; rfl⟩
    exact ⟨params.setAll bindings, by rw [get, reads, no]⟩

theorem get_of_read {rule : MatchRule α} {url : Url} {bindings : List (List Char × List Char)}
    (reads : rule.read url = some bindings) :
    rule.get url [] = (rule.handler, Parameters.setAll [] bindings) := by
  obtain ⟨params', get⟩ := rule.get_eq_read url []
  rw [get, reads]

/-- Rules that fail leave nothing behind. -/
theorem tryRules_none {default : Option α} {url : Url} {rules : List (UInt64 × MatchRule α)}
    (fail : ∀ entry ∈ rules, ¬entry.2.Matches url) :
    Routes.tryRules default url rules [] = (default, []) := by
  induction rules with
  | nil => rfl
  | cons entry rules ih =>
    obtain ⟨cookie, rule⟩ := entry
    obtain ⟨params', get⟩ := @get_of_not_matches α rule url [] (fail _ List.mem_cons_self)
    rw [Routes.tryRules, get]
    exact ih fun entry member => fail entry (.tail _ member)

/-- The first rule that matches is chosen, whatever failed before it. -/
theorem tryRules_first {default : Option α} {url : Url} {rules : List (UInt64 × MatchRule α)}
    {cookie : UInt64} {rule : MatchRule α} {bindings : List (List Char × List Char)}
    (sorted : Sorted cookieLt rules) (member : (cookie, rule) ∈ rules)
    (matches_ : rule.Matches url) (reads : rule.read url = some bindings)
    (first : ∀ entry ∈ rules, entry.1 < cookie → ¬entry.2.Matches url) :
    Routes.tryRules default url rules [] = (rule.handler, Parameters.setAll [] bindings) := by
  induction rules with
  | nil => cases member
  | cons entry rules ih =>
    obtain ⟨ahead, rest⟩ := List.pairwise_cons.mp sorted
    rcases List.mem_cons.mp member with rfl | member
    · rw [Routes.tryRules, get_of_read reads]
      obtain ⟨handler, found⟩ := Option.isSome_iff_exists.mp matches_.1
      rw [found]
    · have before : entry.1 < cookie := by simpa [cookieLt] using ahead _ member
      obtain ⟨params', get⟩ :=
        @get_of_not_matches α entry.2 url [] (first entry List.mem_cons_self before)
      rw [Routes.tryRules, get]
      exact ih rest member fun entry member => first entry (.tail _ member)

/-- After any history `get_handler` returns the exact match; without one, the
handler of the matching rule with the smallest cookie; without that, the default
handler. The parameters are the bindings of the chosen rule. The cookie that
`add_cookie` returns is the one that its rule is registered under. -/
theorem getHandler_history (history : List (Operation α)) (type : OperationType) (url : Url) :
    (∀ handler, exactOf type url history.reverse = some (some handler) →
      (Routes.run history).getHandler type url [] = (some handler, [])) ∧
    ((exactOf type url history.reverse).join = none →
      (∀ cookie rule bindings, ruleOf type cookie history.reverse = some rule →
        rule.Matches url → rule.read url = some bindings →
        (∀ cookie' rule', cookie' < cookie → ruleOf type cookie' history.reverse = some rule' →
          ¬rule'.Matches url) →
        (Routes.run history).getHandler type url [] =
          (rule.handler, Parameters.setAll [] bindings)) ∧
      ((∀ cookie rule, ruleOf type cookie history.reverse = some rule → ¬rule.Matches url) →
        (Routes.run history).getHandler type url [] = (defaultOf history.reverse, []))) ∧
    ∀ rule, ruleOf type ((Routes.run history).addCookie rule type).1
      (.addCookie rule type :: history.reverse) = some rule := by
  have holds := run_holds history
  have exact_ : (Routes.run history).getExactMatch type url =
      (exactOf type url history.reverse).join := by
    rw [Routes.getExactMatch, holds.exact_]
  have sorted := holds.sorted type
  refine ⟨fun handler registered => ?_, fun missing => ⟨?_, fun fail => ?_⟩, fun rule => ?_⟩
  · rw [Routes.getHandler, exact_, registered]
    rfl
  · intro cookie rule bindings registered matches_ reads first
    rw [Routes.getHandler, exact_, missing]
    have member := Lib.OrdMap.mem_of_find ((holds.rule type cookie).trans registered)
    refine tryRules_first sorted member matches_ reads fun entry member' before => ?_
    have found := Lib.OrdMap.find_of_mem cookieLt_strict sorted member'
    exact first entry.1 entry.2 before ((holds.rule type entry.1).symm.trans found)
  · rw [Routes.getHandler, exact_, missing]
    rw [← holds.default]
    refine tryRules_none fun entry member => ?_
    have found := Lib.OrdMap.find_of_mem cookieLt_strict sorted member
    exact fail entry.1 entry.2 ((holds.rule type entry.1).symm.trans found)
  · show (if type = type ∧ nextCookie history.reverse = (Routes.run history).rover then some rule
      else _) = some rule
    rw [if_pos ⟨rfl, holds.rover.symm⟩]

/-- The first rule binds its parameter and fails; the second one is chosen. -/
theorem getHandler_history_second :
    (Routes.run [.add ⟨[.param ['a'] false, .str ['/', 'x']], some 1⟩ .get,
      .add ⟨[.param ['b'] true], some 2⟩ .get]).getHandler .get ['/', 'u', '/', 'v'] [] =
        (some (2 : Nat), [(['b'], ['/', 'u', '/', 'v'])]) := by
  refine ((getHandler_history _ .get _).2.1 rfl).1 1 ⟨[.param ['b'] true], some 2⟩ _ rfl
    ⟨rfl, rfl⟩ rfl ?_
  intro cookie rule before registered
  have zero : cookie = 0 := by
    have small := UInt64.lt_iff_toNat_lt.mp before
    apply UInt64.toNat_inj.mp
    have one : (1 : UInt64).toNat = 1 := rfl
    have none_ : (0 : UInt64).toNat = 0 := rfl
    omega
  subst zero
  cases registered
  rintro ⟨-, reads⟩
  revert reads
  decide

end ActorNet.Http
