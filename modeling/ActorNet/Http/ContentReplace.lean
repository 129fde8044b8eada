import ActorNet.Http.Transformers
import ActorNet.Lib.Placeholders

/-!
# What the replacing stream delivers

A replacer that is consuming holds back a begin `w` of its keys, and its entries
are the keys that begin so (`Holding`). Each buffer is passed on as `expand` says
for the whole text, with one exception: when the matcher holds two braces, it
writes them out without looking at the second one again, so a key that begins
there is missed (`Straddled`).
-/

namespace ActorNet.Http

open ActorNet.Lib.Placeholders

namespace BufferReplace

/-! ## Keys and entries -/

/-- The entry of a key of which `w` is consumed. -/
def entryOf (T : Table Char) (w : List Char) (x : Entry Char × Nat) : PotentialMatchEntry where
  rest := (T.key x.1).drop w.length
  pos := x.2

/-- The keys that begin with `w`. -/
def candidates (T : Table Char) (w : List Char) : List (Entry Char × Nat) :=
  T.entries.zipIdx.filter fun x => w.isPrefixOf (T.key x.1)

/-- The replacer has the keys of the table. -/
def Serves (T : Table Char) (br : BufferReplace) : Prop :=
  T.opening = '{' ∧ br.values = T.entries.map fun e => (T.key e, e.value)

/-- The replacer holds back `w`, which some key begins with and no key is. -/
structure Holding (T : Table Char) (br : BufferReplace) (w : List Char) : Prop where
  serves : Serves T br
  current : br.current = if w = [] then [] else (candidates T w).map (entryOf T w)
  begins : w ≠ [] → ∃ e ∈ T.entries, w <+: T.key e ∧ w ≠ T.key e

variable {T : Table Char} {br : BufferReplace} {w b u : List Char} {e : Entry Char}

theorem mem_candidates {x : Entry Char × Nat} :
    x ∈ candidates T w ↔ x ∈ T.entries.zipIdx ∧ w <+: T.key x.1 := by
  rw [candidates, List.mem_filter, List.isPrefixOf_iff_prefix]

theorem mem_of_candidates {x : Entry Char × Nat} (member : x ∈ candidates T w) :
    x.1 ∈ T.entries :=
  List.mem_of_getElem? (List.mem_zipIdx_iff_getElem?.mp (mem_candidates.mp member).1)

theorem exists_candidate (member : e ∈ T.entries) (begins : w <+: T.key e) :
    ∃ x ∈ candidates T w, x.1 = e := by
  obtain ⟨i, inside, rfl⟩ := List.getElem_of_mem member
  exact ⟨(T.entries[i], i), mem_candidates.mpr ⟨List.mem_zipIdx_iff_getElem?.mpr (by simp), begins⟩,
    rfl⟩

theorem getKey_eq (serves : Serves T br) {x : Entry Char × Nat}
    (member : x ∈ T.entries.zipIdx) : br.getKey x.2 = T.key x.1 := by
  have found : T.entries[x.2]? = some x.1 := List.mem_zipIdx_iff_getElem?.mp member
  simp [getKey, serves.2, found]

theorem getValue_eq (serves : Serves T br) {x : Entry Char × Nat}
    (member : x ∈ T.entries.zipIdx) : br.getValue x.2 = x.1.value := by
  have found : T.entries[x.2]? = some x.1 := List.mem_zipIdx_iff_getElem?.mp member
  simp [getValue, serves.2, found]

theorem getRemaining_eq (serves : Serves T br) {x : Entry Char × Nat}
    {more : List PotentialMatchEntry} (member : x ∈ T.entries.zipIdx) (begins : w <+: T.key x.1)
    (current : br.current = entryOf T w x :: more) : br.getRemaining = w := by
  obtain ⟨rest, whole⟩ := begins
  have key := getKey_eq serves member
  simp only [getRemaining, current, entryOf, key, ← whole]
  simp

/-! ## One comparison -/

/-- What is compared is equal when one of the two begins with the other. -/
theorem take_min_eq_iff (r b : List Char) :
    r.take (min b.length r.length) = b.take (min b.length r.length) ↔ b <+: r ∨ r <+: b := by
  constructor
  · intro same
    rcases Nat.le_total b.length r.length with shorter | shorter
    · left
      rw [Nat.min_eq_left shorter, List.take_length] at same
      exact same ▸ List.take_prefix b.length r
    · right
      rw [Nat.min_eq_right shorter, List.take_length] at same
      exact same ▸ List.take_prefix r.length b
  · rintro (⟨more, rfl⟩ | ⟨more, rfl⟩) <;> simp

theorem prefix_drop_iff {k : List Char} (begins : w <+: k) :
    b <+: k.drop w.length ↔ w ++ b <+: k := by
  obtain ⟨rest, rfl⟩ := begins
  simp

theorem drop_prefix_iff {k : List Char} (begins : w <+: k) :
    k.drop w.length <+: b ↔ k <+: w ++ b := by
  obtain ⟨rest, rfl⟩ := begins
  simp

/-- The entry goes on matching with the buffer, or the buffer with the entry. -/
def Agrees (T : Table Char) (w b : List Char) (x : Entry Char × Nat) : Prop :=
  w ++ b <+: T.key x.1 ∨ T.key x.1 <+: w ++ b

theorem compare_iff {x : Entry Char × Nat} (begins : w <+: T.key x.1) :
    (entryOf T w x).rest.take (min b.length (entryOf T w x).rest.length) =
        b.take (min b.length (entryOf T w x).rest.length) ↔ Agrees T w b x := by
  rw [take_min_eq_iff, entryOf, prefix_drop_iff begins, drop_prefix_iff begins]
  rfl

/-! ## The loop over the entries -/

variable {kept : List PotentialMatchEntry} {L : List (Entry Char × Nat)}

/-- No key is complete, and some entry goes on matching: the buffer is consumed. -/
theorem matchLoop_goesOn (begin_ : ∀ x ∈ L, w <+: T.key x.1)
    (open_ : ∀ x ∈ L, ¬T.key x.1 <+: w ++ b)
    (some_ : kept ≠ [] ∨ ∃ x ∈ L, w ++ b <+: T.key x.1) :
    br.matchLoop b kept (L.map (entryOf T w)) =
      { replacer := { br with current := kept ++
          (L.filter fun x => (w ++ b).isPrefixOf (T.key x.1)).map (entryOf T (w ++ b)) }
        out := []
        buf := [] } := by
  induction L generalizing kept with
  | nil => simp [matchLoop]
  | cons x L ih =>
    have begins := begin_ x List.mem_cons_self
    have unfinished := open_ x List.mem_cons_self
    have ih' := fun kept' => @ih kept' (fun y member => begin_ y (.tail _ member))
      (fun y member => open_ y (.tail _ member))
    rw [List.map_cons, matchLoop]
    by_cases agrees : w ++ b <+: T.key x.1
    · have length : ¬(entryOf T w x).rest.length = min b.length (entryOf T w x).rest.length := by
        intro same
        have shorter : (entryOf T w x).rest.length ≤ b.length := by omega
        have inner := (prefix_drop_iff begins).mpr agrees
        have whole := inner.eq_of_length_le shorter
        apply unfinished
        exact (drop_prefix_iff begins).mp (whole ▸ List.prefix_refl _)
      rw [if_neg (not_not.mpr ((compare_iff begins).mpr (.inl agrees))), if_neg length,
        ih' _ (.inl (by simp))]
      have advanced : (⟨(entryOf T w x).rest.drop (min b.length (entryOf T w x).rest.length),
          (entryOf T w x).pos⟩ : PotentialMatchEntry) = entryOf T (w ++ b) x := by
        obtain ⟨more, whole⟩ := agrees
        have rest : (entryOf T w x).rest = b ++ more := by
          simp [entryOf, ← whole]
        simp only [rest]
        simp [entryOf, ← whole]
      rw [List.filter_cons_of_pos (by simpa using agrees), advanced]
      simp
    · have other : ¬Agrees T w b x := fun both => both.elim agrees unfinished
      have another : (kept ++ entryOf T w x :: L.map (entryOf T w)).length ≠ 1 := by
        intro single
        simp only [List.length_append, List.length_cons, List.length_map] at single
        have none_ : kept = [] := List.eq_nil_of_length_eq_zero (by omega)
        have none_' : L = [] := List.eq_nil_of_length_eq_zero (by omega)
        rcases some_ with nonempty | ⟨y, member, goesOn⟩
        · exact nonempty none_
        · rw [none_', List.mem_singleton] at member
          exact agrees (member ▸ goesOn)
      rw [if_pos (fun same => other ((compare_iff begins).mp same)), if_neg another,
        ih' kept (some_.imp_right ?_)]
      · rw [List.filter_cons_of_neg (by simpa using agrees)]
      · rintro ⟨y, member, goesOn⟩
        rcases List.mem_cons.mp member with rfl | member
        · exact absurd goesOn agrees
        · exact ⟨y, member, goesOn⟩

/-- No entry goes on matching: what was consumed is given back. -/
theorem matchLoop_none (serves : Serves T br)
    (begin_ : ∀ x ∈ L, x ∈ T.entries.zipIdx ∧ w <+: T.key x.1) (nonempty : L ≠ [])
    (no : ∀ x ∈ L, ¬Agrees T w b x) :
    br.matchLoop b [] (L.map (entryOf T w)) =
      { replacer := { br with current := [] }, out := w, buf := b } := by
  induction L with
  | nil => exact absurd rfl nonempty
  | cons x L ih =>
    obtain ⟨member, begins⟩ := begin_ x List.mem_cons_self
    have other := no x List.mem_cons_self
    rw [List.map_cons, matchLoop, if_pos (fun same => other ((compare_iff begins).mp same))]
    cases L with
    | nil =>
      have back := @getRemaining_eq T { br with current := [entryOf T w x] } w serves x [] member
        begins rfl
      rw [if_pos (by simp)]
      simpa using back
    | cons y L =>
      rw [if_neg (by simp)]
      exact ih (fun z member => begin_ z (.tail _ member)) (by simp)
        fun z member => no z (.tail _ member)

/-- A key is complete: no other one agrees, and its value is returned. -/
theorem matchLoop_full (serves : Serves T br) {x : Entry Char × Nat}
    (begin_ : ∀ y ∈ L, y ∈ T.entries.zipIdx ∧ w <+: T.key y.1) (member : x ∈ L)
    (full : T.key x.1 <+: w ++ b) (others : ∀ y ∈ L, Agrees T w b y → y = x) :
    br.matchLoop b [] (L.map (entryOf T w)) =
      { replacer := { br with current := [] }
        out := x.1.value
        buf := b.drop ((T.key x.1).length - w.length) } := by
  induction L with
  | nil => cases member
  | cons y L ih =>
    obtain ⟨index, begins⟩ := begin_ y List.mem_cons_self
    rw [List.map_cons, matchLoop]
    by_cases agrees : Agrees T w b y
    · obtain rfl := others y List.mem_cons_self agrees
      have shorter := ((drop_prefix_iff begins).mpr full).length_le
      have length : (entryOf T w y).rest.length = min b.length (entryOf T w y).rest.length := by
        rw [entryOf]
        exact (Nat.min_eq_right shorter).symm
      rw [if_neg (not_not.mpr ((compare_iff begins).mpr agrees)), if_pos length, ← length]
      have value := getValue_eq serves index
      simp only [List.nil_append, List.head_cons]
      simp [entryOf, value]
    · have rest : x ∈ L := by
        rcases List.mem_cons.mp member with rfl | member
        · exact absurd (.inr full) agrees
        · exact member
      have more : L ≠ [] := List.ne_nil_of_mem rest
      have another : ([] ++ entryOf T w y :: L.map (entryOf T w)).length ≠ 1 := by
        have positive := List.length_pos_iff.mpr more
        simp only [List.nil_append, List.length_cons, List.length_map]
        omega
      rw [if_pos (fun same => agrees ((compare_iff begins).mp same)), if_neg another]
      exact ih (fun z member => begin_ z (.tail _ member)) rest
        fun z member => others z (.tail _ member)

/-! ## Looking for braces -/

theorem findBraces_none (opening : T.opening = '{') (no : findBraces b = none) :
    (∀ F, T.expand (b ++ F) = b ++ T.expand F) ∧ b.getLast? ≠ some '{' := by
  fun_induction findBraces b with
  | case1 => exact ⟨fun _ => rfl, by simp⟩
  | case2 => cases no
  | case3 c other => exact ⟨fun F => Table.expand_cons_of_ne (opening ▸ other), by simpa using other⟩
  | case4 => cases no
  | case5 c d s other ih =>
    obtain ⟨passes, last⟩ := ih (by simpa using no)
    refine ⟨fun F => ?_, by simpa using last⟩
    have first : T.expand (c :: (d :: s ++ F)) = c :: T.expand (d :: s ++ F) := by
      by_cases brace : c = '{'
      · rw [brace, ← opening]
        apply Table.expand_single
        intro x head same
        cases head
        exact other ⟨brace, same.trans opening⟩
      · exact Table.expand_cons_of_ne (opening ▸ brace)
    rw [List.cons_append, first, passes]
    rfl

theorem findBraces_some (opening : T.opening = '{') {i : Nat} (found : findBraces b = some i) :
    b = b.take i ++ '{' :: b.drop (i + 1) ∧ (b.take i).getLast? ≠ some '{' ∧
      ∀ F, T.expand (b ++ F) = b.take i ++ T.expand ('{' :: (b.drop (i + 1) ++ F)) := by
  fun_induction findBraces b generalizing i with
  | case1 => cases found
  | case2 =>
    cases found
    exact ⟨rfl, by simp, fun F => rfl⟩
  | case3 => cases found
  | case4 c d s both =>
    cases found
    rw [both.1, both.2]
    exact ⟨rfl, by simp, fun F => rfl⟩
  | case5 c d s other ih =>
    obtain ⟨j, found', rfl⟩ := Option.map_eq_some_iff.mp found
    obtain ⟨split, last, passes⟩ := ih found'
    refine ⟨?_, ?_, fun F => ?_⟩
    · rw [List.take_succ_cons, List.drop_succ_cons, List.cons_append, ← split]
    · intro brace
      cases j with
      | zero =>
        rw [List.take_zero, List.nil_append] at split
        have behind : d = '{' := (List.cons.inj split).1
        have this : c = '{' := by simpa using brace
        exact other ⟨this, behind⟩
      | succ j => exact last (by simpa [List.getLast?_cons] using brace)
    · have first : T.expand (c :: (d :: s ++ F)) = c :: T.expand (d :: s ++ F) := by
        by_cases brace : c = '{'
        · rw [brace, ← opening]
          apply Table.expand_single
          intro x head same
          cases head
          exact other ⟨brace, same.trans opening⟩
        · exact Table.expand_cons_of_ne (opening ▸ brace)
      rw [List.cons_append, first, passes]
      rfl

/-! ## Braces that are held -/

/-- The braces that the matcher holds behind a buffer, when it holds nothing
more than braces: `n` is how many it held before. -/
def held (n : Nat) (b : List Char) : Nat :=
  if b = ['{'] then (if n = 1 then 2 else 1)
  else if b.getLast? = some '{' then (if b.dropLast.getLast? = some '{' then 2 else 1)
  else 0

/-- The number of braces when nothing more is held. -/
def braces (w : List Char) : Nat := if w.length ≤ 2 then w.length else 0

theorem held_of_last {n : Nat} (last : b.getLast? ≠ some '{') : held n b = 0 := by
  have single : b ≠ ['{'] := by rintro rfl; exact last rfl
  rw [held, if_neg single, if_neg last]

theorem held_append {n m : Nat} (long : 2 ≤ b.length) : held n (u ++ b) = held m b := by
  have nonempty : b ≠ [] := by rintro rfl; simp at long
  have single : b ≠ ['{'] := by rintro rfl; simp at long
  have single' : u ++ b ≠ ['{'] := by
    intro same
    have length := congrArg List.length same
    simp only [List.length_append, List.length_singleton] at length
    omega
  have inner : b.dropLast ≠ [] := by
    intro empty
    have length := congrArg List.length empty
    simp only [List.length_dropLast, List.length_nil] at length
    omega
  have last : (u ++ b).getLast? = b.getLast? := List.getLast?_append_of_ne_nil u nonempty
  have last' : (u ++ b).dropLast.getLast? = b.dropLast.getLast? := by
    rw [List.dropLast_append_of_ne_nil nonempty]
    exact List.getLast?_append_of_ne_nil u inner
  rw [held, held, if_neg single, if_neg single', last, last']

/-- Behind what holds no brace at its end, a buffer counts as if it were alone. -/
theorem held_behind {n m : Nat} (nonempty : u ≠ []) (last : u.getLast? ≠ some '{') (more : b ≠ [])
    (none_ : m ≠ 1) : held n (u ++ b) = held m b := by
  by_cases long : 2 ≤ b.length
  · exact held_append long
  obtain ⟨x, rfl⟩ : ∃ x, b = [x] := by
    apply List.length_eq_one_iff.mp
    have positive := List.length_pos_iff.mpr more
    omega
  have single : u ++ [x] ≠ ['{'] := by
    intro same
    have length := congrArg List.length same
    have positive := List.length_pos_iff.mpr nonempty
    simp only [List.length_append, List.length_singleton] at length
    omega
  by_cases brace : x = '{'
  · subst brace
    simp [held, nonempty, last, none_]
  · rw [held_of_last (by simp [brace]), held_of_last (by simp [brace])]

/-- Behind a brace that is taken off the buffer. -/
theorem held_brace (more : b ≠ []) (n : Nat) : held n (u ++ '{' :: b) = held 1 b := by
  by_cases long : 2 ≤ b.length
  · rw [← List.singleton_append, ← List.append_assoc]
    exact held_append long
  obtain ⟨x, rfl⟩ : ∃ x, b = [x] := by
    apply List.length_eq_one_iff.mp
    have positive := List.length_pos_iff.mpr more
    omega
  have split : u ++ '{' :: [x] = (u ++ ['{']) ++ [x] := by simp
  by_cases brace : x = '{'
  · subst brace
    have last : ((u ++ ['{']) ++ ['{']).dropLast.getLast? = some '{' := by simp
    have many : (u ++ ['{']) ++ ['{'] ≠ ['{'] := by
      intro same
      have length := congrArg List.length same
      simp at length
    rw [split, held, if_neg many, if_pos (by simp), if_pos last]
    rfl
  · rw [held_of_last (by simp [brace]), held_of_last (by simp [brace])]

/-! ## One round -/

theorem Holding.isConsuming (holding : Holding T br w) : br.isConsuming = true ↔ w ≠ [] := by
  rw [BufferReplace.isConsuming, holding.current]
  by_cases empty : w = []
  · simp [empty]
  · obtain ⟨e, member, begins, -⟩ := holding.begins empty
    obtain ⟨x, candidate, -⟩ := exists_candidate member begins
    simp [empty, List.ne_nil_of_mem candidate]

/-- Nothing is held back. -/
theorem holding_nil (serves : Serves T br) : Holding T { br with current := [] } [] :=
  ⟨serves, rfl, fun no => absurd rfl no⟩

/-- Where a key begins with `w`, every key that shares a place with it does. -/
theorem begins_of_shared_key (member : e ∈ T.entries) (begins : w <+: T.key e) {e' : Entry Char}
    (member' : e' ∈ T.entries) (key : T.key e' <+: w ++ b) :
    w <+: T.key e' := by
  rcases List.prefix_or_prefix_of_prefix key (List.prefix_append w b) with first | first
  · have same := T.eq_of_prefix member' member (Table.key_prefix_key.mp (first.trans begins))
    exact same ▸ begins
  · exact first

/-- The three ways in which a round of `match` ends. -/
inductive Matched (T : Table Char) (w b : List Char) : Replaced → Prop
  | full {r : Replaced} {e : Entry Char} {k : List Char} (member : e ∈ T.entries)
      (key : T.key e = w ++ k) (split : b = k ++ r.buf) (out : r.out = e.value)
      (holding : Holding T r.replacer []) : Matched T w b r
  | open_ {r : Replaced} (out : r.out = []) (buf : r.buf = [])
      (holding : Holding T r.replacer (w ++ b)) : Matched T w b r
  | none_ {r : Replaced} (no : ∀ e ∈ T.entries, ¬w ++ b <+: T.key e ∧ ¬T.key e <+: w ++ b)
      (out : r.out = w) (buf : r.buf = b) (holding : Holding T r.replacer []) : Matched T w b r

theorem match_matched (holding : Holding T br w) (some_ : w ≠ []) :
    Matched T w b (br.match_ b) := by
  obtain ⟨e, member, begins, -⟩ := holding.begins some_
  obtain ⟨x, candidate, -⟩ := exists_candidate member begins
  have current := holding.current
  rw [if_neg some_] at current
  have nonempty : candidates T w ≠ [] := List.ne_nil_of_mem candidate
  have loop : br.match_ b = br.matchLoop b [] ((candidates T w).map (entryOf T w)) := by
    rw [match_, current, if_neg (by simp [nonempty])]
  have index : ∀ y ∈ candidates T w, y ∈ T.entries.zipIdx ∧ w <+: T.key y.1 :=
    fun y member => mem_candidates.mp member
  rw [loop]
  by_cases full : ∃ y ∈ candidates T w, T.key y.1 <+: w ++ b
  · obtain ⟨y, candidate, full⟩ := full
    have others : ∀ z ∈ candidates T w, Agrees T w b z → z = y := by
      intro z candidate' agrees
      have key : T.key z.1 <+: T.key y.1 ∨ T.key y.1 <+: T.key z.1 := by
        rcases agrees with longer | shorter
        · exact .inr (full.trans longer)
        · exact List.prefix_or_prefix_of_prefix shorter full
      have same : z.1 = y.1 := by
        rcases key with key | key
        · exact T.eq_of_prefix (mem_of_candidates candidate') (mem_of_candidates candidate)
            (Table.key_prefix_key.mp key)
        · exact (T.eq_of_prefix (mem_of_candidates candidate) (mem_of_candidates candidate')
            (Table.key_prefix_key.mp key)).symm
      have place := List.mem_zipIdx_iff_getElem?.mp (index y candidate).1
      have place' := List.mem_zipIdx_iff_getElem?.mp (index z candidate').1
      exact Prod.ext same (Table.index_eq place' place (same ▸ List.prefix_refl _))
    rw [matchLoop_full holding.serves index candidate full others]
    obtain ⟨k, key⟩ := (index y candidate).2
    refine .full (mem_of_candidates candidate) key.symm ?_ rfl (holding_nil holding.serves)
    rw [← key] at full ⊢
    obtain ⟨rest, whole⟩ := (List.prefix_append_right_inj w).mp full
    simp [← whole]
  · have unfinished : ∀ y ∈ candidates T w, ¬T.key y.1 <+: w ++ b :=
      fun y candidate key => full ⟨y, candidate, key⟩
    by_cases goesOn : ∃ y ∈ candidates T w, w ++ b <+: T.key y.1
    · rw [matchLoop_goesOn (fun y candidate => (index y candidate).2) unfinished (.inr goesOn)]
      refine .open_ rfl rfl ⟨holding.serves, ?_, fun _ => ?_⟩
      · rw [if_neg (by simp [some_])]
        simp only [List.nil_append, candidates, List.filter_filter]
        congr 1
        apply List.filter_congr
        intro y _
        rw [Bool.and_eq_left_iff_imp]
        simp only [List.isPrefixOf_iff_prefix]
        exact fun longer => (List.prefix_append w b).trans longer
      · obtain ⟨y, candidate, longer⟩ := goesOn
        exact ⟨y.1, mem_of_candidates candidate, longer,
          fun same => unfinished y candidate (same ▸ List.prefix_refl _)⟩
    · have no : ∀ y ∈ candidates T w, ¬Agrees T w b y := by
        rintro y candidate (longer | shorter)
        · exact goesOn ⟨y, candidate, longer⟩
        · exact unfinished y candidate shorter
      rw [matchLoop_none holding.serves index nonempty no]
      refine .none_ (fun e' member' => ?_) rfl rfl (holding_nil holding.serves)
      by_cases begins' : w <+: T.key e'
      · obtain ⟨y, candidate, rfl⟩ := exists_candidate member' begins'
        exact ⟨fun longer => no y candidate (.inl longer),
          fun shorter => no y candidate (.inr shorter)⟩
      · exact ⟨fun longer => begins' ((List.prefix_append w b).trans longer),
          fun shorter => begins' (begins_of_shared_key member begins member' shorter)⟩

/-! ## One buffer -/

/-- What a buffer behind `w` becomes: `out` is passed on and `w'` held back. The
text that follows expands to the same, unless two braces are held before a key
that begins with the second of them: then the two are passed on first. -/
structure Passes (T : Table Char) (w b out w' : List Char) : Prop where
  even : ∀ F, ¬(w = ['{', '{'] ∧ T.Straddles (b ++ F)) →
    T.expand (w ++ (b ++ F)) = out ++ T.expand (w' ++ F)
  odd : ∀ F, w = ['{', '{'] → T.Straddles (b ++ F) →
    w ++ T.expand (b ++ F) = out ++ T.expand (w' ++ F)
  count : braces w' = held (braces w) b

/-- A straddled key agrees with nothing that begins with two braces. -/
theorem not_straddles_of_key {k F : List Char} (opening : T.opening = '{') (member : e ∈ T.entries)
    (key : T.key e = ['{', '{'] ++ k) (nonempty : b ≠ []) (begins : b <+: k ∨ k <+: b) :
    ¬T.Straddles (b ++ F) := by
  rintro ⟨e', -, rest, whole⟩
  have tail : e.tail = k := by
    simp only [Table.key, opening, List.cons_append, List.nil_append, List.cons.injEq, true_and]
      at key
    exact key
  cases b with
  | nil => exact nonempty rfl
  | cons c b =>
    simp only [List.cons_append, List.cons.injEq] at whole
    have inside : T.opening ∈ e.tail := by
      rw [tail, whole.1]
      rcases begins with ⟨more, rfl⟩ | begins
      · exact List.mem_cons_self
      · cases k with
        | nil => exact absurd tail (T.nonempty e member)
        | cons d k =>
          obtain ⟨more, split⟩ := begins
          simp only [List.cons_append, List.cons.injEq] at split
          rw [split.1]
          exact List.mem_cons_self
    exact T.clear e member inside

/-- A key is complete. -/
theorem passes_full {k out w' : List Char} (opening : T.opening = '{') (member : e ∈ T.entries)
    (key : T.key e = w ++ k) (short : k ≠ [])
    (rest : u ≠ [] → Passes T [] u out w') (done : u = [] → out = [] ∧ w' = []) :
    Passes T w (k ++ u) (e.value ++ out) w' := by
  have more : k ++ u ≠ [] := by simp [short]
  have plain : ∀ F, w = ['{', '{'] → ¬T.Straddles (k ++ u ++ F) := by
    rintro F rfl
    exact not_straddles_of_key opening member key more (.inr (List.prefix_append k u))
  have last : k.getLast? ≠ some '{' := by
    intro brace
    have whole : (T.key e).getLast? = some '{' := by
      rw [key, List.getLast?_append_of_ne_nil w short, brace]
    have tail : e.tail ≠ [] := T.nonempty e member
    have same : (T.key e).getLast? = e.tail.getLast? :=
      List.getLast?_append_of_ne_nil [T.opening, T.opening] tail
    exact T.clear e member (opening ▸ List.mem_of_getLast? (same ▸ whole))
  have expands : ∀ F, T.expand (w ++ (k ++ u ++ F)) = e.value ++ T.expand (u ++ F) := by
    intro F
    have split : w ++ (k ++ u ++ F) = T.key e ++ (u ++ F) := by simp [key]
    rw [split, Table.expand_key member]
  by_cases empty : u = []
  · obtain ⟨rfl, rfl⟩ := done empty
    subst empty
    refine ⟨fun F _ => ?_, fun F both straddles => absurd straddles (plain F both), ?_⟩
    · rw [expands, List.append_nil]
    · rw [List.append_nil, held_of_last last]
      rfl
  · have passes := rest empty
    refine ⟨fun F _ => ?_, fun F both straddles => absurd straddles (plain F both), ?_⟩
    · rw [expands, List.append_assoc]
      congr 1
      exact passes.even F (fun both => by cases both.1)
    · rw [passes.count]
      exact (held_behind short last empty (by decide)).symm

/-- The buffer is consumed. -/
theorem passes_open (opening : T.opening = '{') (some_ : w ≠ []) (nonempty : b ≠ [])
    (begins : ∃ e ∈ T.entries, w ++ b <+: T.key e ∧ w ++ b ≠ T.key e) :
    Passes T w b [] (w ++ b) := by
  obtain ⟨e, member, ⟨more, whole⟩, -⟩ := begins
  have plain : ∀ F, w = ['{', '{'] → ¬T.Straddles (b ++ F) := by
    rintro F rfl
    exact not_straddles_of_key opening member
      (by rw [← whole, List.append_assoc]) nonempty (.inl (List.prefix_append b more))
  refine ⟨fun F _ => by simp, fun F both straddles => absurd straddles (plain F both), ?_⟩
  -- the key is two braces and its tail; what is held ends in one of the two parts
  have key : T.key e = '{' :: '{' :: e.tail := by rw [Table.key, opening]
  rw [key] at whole
  have clear : '{' ∉ e.tail := opening ▸ T.clear e member
  cases w with
  | nil => exact absurd rfl some_
  | cons c w =>
    simp only [List.cons_append, List.cons.injEq] at whole
    obtain ⟨-, whole⟩ := whole
    cases w with
    | nil =>
      cases b with
      | nil => exact absurd rfl nonempty
      | cons d b =>
        simp only [List.nil_append, List.cons_append, List.cons.injEq] at whole
        obtain ⟨rfl, whole⟩ := whole
        cases b with
        | nil => rfl
        | cons x b =>
          have last : ('{' :: x :: b).getLast? ≠ some '{' := by
            intro brace
            have inside : '{' ∈ x :: b := by
              rw [List.getLast?_cons_cons] at brace
              exact List.mem_of_getLast? brace
            exact clear (whole ▸ List.mem_append_left _ inside)
          rw [held_of_last last]
          simp [braces]
    | cons d w =>
      simp only [List.cons_append, List.cons.injEq] at whole
      obtain ⟨-, whole⟩ := whole
      have last : b.getLast? ≠ some '{' := by
        intro brace
        have inside : '{' ∈ w ++ b := List.mem_append_right _ (List.mem_of_getLast? brace)
        exact clear (whole ▸ List.mem_append_left _ inside)
      rw [held_of_last last]
      have positive := List.length_pos_iff.mpr nonempty
      simp only [braces, List.cons_append, List.length_cons, List.length_append]
      rw [if_neg (by omega)]

/-- No key goes on: what was held is passed on, and the buffer is looked at alone. -/
theorem passes_none {out w' : List Char} (opening : T.opening = '{') (some_ : w ≠ [])
    (begins : ∃ e ∈ T.entries, w <+: T.key e ∧ w ≠ T.key e)
    (no : ∀ e ∈ T.entries, ¬w ++ b <+: T.key e ∧ ¬T.key e <+: w ++ b)
    (rest : Passes T [] b out w') : Passes T w b (w ++ out) w' := by
  obtain ⟨e, member, start, -⟩ := begins
  have free : ∀ F, ∀ e ∈ T.entries, ¬T.key e <+: w ++ (b ++ F) := by
    intro F e' member' key
    rw [← List.append_assoc] at key
    rcases List.prefix_or_prefix_of_prefix key (List.prefix_append (w ++ b) F) with first | first
    · exact (no e' member').2 first
    · exact (no e' member').1 first
  have inner : ∀ F, T.expand (b ++ F) = out ++ T.expand (w' ++ F) :=
    fun F => rest.even F (fun both => by cases both.1)
  refine ⟨fun F plain => ?_, fun F _ _ => by rw [inner, List.append_assoc], ?_⟩
  · rw [Table.expand_start member start (free F) ?_, inner, List.append_assoc]
    intro both straddles
    exact plain ⟨by rw [both, opening], straddles⟩
  · rw [rest.count]
    -- a single brace behind a single brace would go on
    have other : ¬(b = ['{'] ∧ braces w = 1) := by
      rintro ⟨rfl, one⟩
      have length : w.length = 1 := by
        unfold braces at one
        split at one
        · exact one
        · cases one
      obtain ⟨c, rfl⟩ := List.length_eq_one_iff.mp length
      obtain ⟨more, whole⟩ := start
      simp only [Table.key, opening, List.cons_append, List.cons.injEq] at whole
      refine (no e member).1 ⟨e.tail, ?_⟩
      simp [Table.key, opening, whole.1]
    unfold held
    by_cases single : b = ['{']
    · rw [if_pos single, if_pos single, if_neg (fun one => other ⟨single, one⟩)]
      rfl
    · rw [if_neg single, if_neg single]

/-- No brace is found. -/
theorem passes_clear (opening : T.opening = '{') (no : findBraces b = none) :
    Passes T [] b b [] := by
  obtain ⟨passes, last⟩ := findBraces_none opening no
  refine ⟨fun F _ => passes F, fun F both => (by cases both), ?_⟩
  rw [held_of_last last]
  rfl

/-- A brace is found: what stands before it is passed on. -/
theorem passes_brace {i : Nat} {out w' : List Char} (opening : T.opening = '{')
    (found : findBraces b = some i)
    (rest : b.drop (i + 1) ≠ [] → Passes T ['{'] (b.drop (i + 1)) out w')
    (done : b.drop (i + 1) = [] → out = [] ∧ w' = ['{']) :
    Passes T [] b (b.take i ++ out) w' := by
  obtain ⟨split, last, passes⟩ := findBraces_some opening found
  refine ⟨fun F _ => ?_, fun F both => (by cases both), ?_⟩
  · by_cases empty : b.drop (i + 1) = []
    · obtain ⟨rfl, rfl⟩ := done empty
      rw [List.nil_append, passes, empty, List.append_nil]
      rfl
    · rw [List.nil_append, passes, List.append_assoc]
      congr 1
      exact (rest empty).even F (fun both => by cases both.1)
  · by_cases empty : b.drop (i + 1) = []
    · obtain ⟨rfl, rfl⟩ := done empty
      rw [empty] at split
      rw [split]
      by_cases front : b.take i = []
      · rw [front]
        rfl
      · have single : b.take i ++ ['{'] ≠ ['{'] := by simpa using front
        rw [held, if_neg single, if_pos (by simp), List.dropLast_concat, if_neg last]
        rfl
    · rw [(rest empty).count]
      conv_rhs => rw [split]
      rw [held_brace empty]
      rfl

theorem potentialMatches_eq (serves : Serves T br) :
    potentialMatches br.values = (candidates T ['{']).map (entryOf T ['{']) := by
  have all : candidates T ['{'] = T.entries.zipIdx := by
    rw [candidates, List.filter_eq_self]
    intro x _
    simp [Table.key, serves.1]
  rw [all, potentialMatches, serves.2, List.zipIdx_map, List.map_map]
  exact List.map_congr_left fun x _ => by simp [entryOf, Table.key]

/-- The rounds of `put` that a buffer may need. -/
def roundsNeeded (w b : List Char) : Nat := 2 * b.length + (if w = [] then 0 else 1)

/-- Enough rounds consume the buffer. -/
theorem repeat_passes (entries : T.entries ≠ []) (rounds : Nat) (holding : Holding T br w)
    (nonempty : b ≠ []) (enough : roundsNeeded w b < rounds) :
    ∃ out br' w', repeatReplace rounds br b = some (out, br') ∧ Holding T br' w' ∧
      Passes T w b out w' := by
  induction rounds generalizing br w b with
  | zero => cases enough
  | succ rounds ih =>
    have opening := holding.serves.1
    have full : b.isEmpty = false := by simpa using nonempty
    have positive := List.length_pos_iff.mpr nonempty
    simp only [repeatReplace, replace, full]
    by_cases some_ : w = []
    · have idle : br.isConsuming = false := by
        rw [Bool.eq_false_iff]
        exact fun consuming => holding.isConsuming.mp consuming some_
      subst some_
      cases found : findBraces b with
      | none =>
        refine ⟨b, br, [], ?_, holding, passes_clear opening found⟩
        simp [idle]
      | some i =>
        have current : br.current ++ potentialMatches br.values =
            (candidates T ['{']).map (entryOf T ['{']) := by
          rw [holding.current, potentialMatches_eq holding.serves]
          rfl
        obtain ⟨e, member⟩ := List.exists_mem_of_ne_nil _ entries
        have holding' : Holding T { br with current := br.current ++ potentialMatches br.values }
            ['{'] := by
          refine ⟨holding.serves, current, fun _ => ⟨e, member, ?_, ?_⟩⟩
          · simp [Table.key, opening]
          · simp [Table.key]
        by_cases empty : b.drop (i + 1) = []
        · refine ⟨b.take i, _, ['{'], ?_, holding', ?_⟩
          · simp [idle, empty]
          · have passes := @passes_brace T b i [] ['{'] opening found (fun no => absurd empty no)
              (fun _ => ⟨rfl, rfl⟩)
            rwa [List.append_nil] at passes
        · have fewer : roundsNeeded ['{'] (b.drop (i + 1)) < rounds := by
            simp only [roundsNeeded, List.length_drop] at enough ⊢
            simp only [if_true] at enough
            rw [if_neg (by simp)]
            omega
          obtain ⟨out, br', w', rest, holding'', passes⟩ := ih holding' empty fewer
          refine ⟨b.take i ++ out, br', w', ?_, holding'', ?_⟩
          · simp [idle, empty, rest]
          · exact passes_brace opening found (fun _ => passes) fun no => absurd no empty
    · have consuming : br.isConsuming = true := holding.isConsuming.mpr some_
      have begins := holding.begins some_
      simp only [consuming, Bool.false_eq_true, if_true, if_false]
      have matched := match_matched (b := b) holding some_
      generalize br.match_ b = r at matched
      cases matched with
      | @full e k member key split value holding' =>
        have short : k ≠ [] := by
          rintro rfl
          obtain ⟨e', member', start, other⟩ := begins
          rw [List.append_nil] at key
          have same := T.eq_of_prefix member member'
            (Table.key_prefix_key.mp (key ▸ start))
          exact other (key.symm.trans (by rw [same]))
        by_cases empty : r.buf = []
        · refine ⟨e.value, r.replacer, [], ?_, holding', ?_⟩
          · simp [empty, value]
          · rw [split, empty]
            have passes := @passes_full T w [] e k [] [] opening member key short
              (fun no => absurd rfl no) (fun _ => ⟨rfl, rfl⟩)
            simpa using passes
        · have fewer : roundsNeeded [] r.buf < rounds := by
            have length := congrArg List.length split
            have positive' := List.length_pos_iff.mpr short
            simp only [List.length_append] at length
            simp only [roundsNeeded, if_neg some_, if_true] at enough ⊢
            omega
          obtain ⟨out, br', w', rest, holding'', passes⟩ := ih holding' empty fewer
          refine ⟨e.value ++ out, br', w', ?_, holding'', ?_⟩
          · simp [empty, rest, value]
          · rw [split]
            exact passes_full opening member key short (fun _ => passes) fun no => absurd no empty
      | open_ out buf holding' =>
        have more := holding'.begins (by simp [some_])
        exact ⟨[], r.replacer, w ++ b, by simp [out, buf], holding',
          passes_open opening some_ nonempty more⟩
      | none_ no out buf holding' =>
        have fewer : roundsNeeded [] b < rounds := by
          simp only [roundsNeeded, if_neg some_, if_true] at enough ⊢
          omega
        obtain ⟨out', br', w', rest, holding'', passes⟩ := ih holding' nonempty fewer
        refine ⟨w ++ out', br', w', ?_, holding'', passes_none opening some_ begins no passes⟩
        simp [buf, full, rest, out]

theorem put_passes (entries : T.entries ≠ []) (holding : Holding T br w) (nonempty : b ≠ []) :
    ∃ out br' w', br.put b = some (out, br') ∧ Holding T br' w' ∧ Passes T w b out w' := by
  have full : b.isEmpty = false := by simpa using nonempty
  rw [put, full]
  apply repeat_passes entries _ holding nonempty
  unfold roundsNeeded
  split <;> omega

/-! ## All buffers -/

/-- A buffer begins inside a key: the matcher holds two braces, and a key begins
with the second of them. -/
def Straddled (T : Table Char) : Nat → List (List Char) → Prop
  | _, [] => False
  | n, b :: bs => (n = 2 ∧ T.Straddles (b ++ bs.flatten)) ∨ Straddled T (held n b) bs

theorem Holding.braces_eq_two (holding : Holding T br w) : braces w = 2 ↔ w = ['{', '{'] := by
  constructor
  · intro two
    have length : w.length = 2 := by
      unfold braces at two
      split at two
      · exact two
      · cases two
    have some_ : w ≠ [] := by
      rintro rfl
      cases length
    obtain ⟨e, -, begins, -⟩ := holding.begins some_
    have front := List.prefix_iff_eq_take.mp begins
    rw [length, Table.key, holding.serves.1] at front
    exact front
  · rintro rfl
    rfl

/-- What is held at the end is passed on. -/
theorem close_eq (holding : Holding T br w) : br.close = w := by
  rw [close]
  by_cases some_ : w = []
  · have idle : br.isConsuming = false := by
      rw [Bool.eq_false_iff]
      exact fun consuming => holding.isConsuming.mp consuming some_
    rw [idle, some_]
    rfl
  · rw [if_pos (holding.isConsuming.mpr some_)]
    obtain ⟨e, member, begins, -⟩ := holding.begins some_
    obtain ⟨x, candidate, -⟩ := exists_candidate member begins
    have current := holding.current
    rw [if_neg some_] at current
    cases entries : candidates T w with
    | nil => simp [entries] at candidate
    | cons y more =>
      obtain ⟨index, begins'⟩ := mem_candidates.mp (entries ▸ List.mem_cons_self)
      rw [entries, List.map_cons] at current
      exact getRemaining_eq holding.serves index begins' current

/-- A begin of a key stands for itself. -/
theorem Holding.expand_eq (holding : Holding T br w) : T.expand w = w := by
  by_cases some_ : w = []
  · rw [some_]
    rfl
  obtain ⟨e, member, begins, short⟩ := holding.begins some_
  have alone := @Table.expand_start _ T _ e [] w member begins (fun e' member' key => ?_)
    (fun _ => ?_)
  · simpa [Table.expand_nil] using alone
  · rw [List.append_nil] at key
    have same := T.eq_of_prefix member' member (Table.key_prefix_key.mp (key.trans begins))
    subst same
    exact short (begins.eq_of_length_le key.length_le)
  · rintro ⟨e', -, rest, whole⟩
    cases whole

/-- Every value is shorter than its key. -/
def Short (T : Table Char) : Prop := ∀ e ∈ T.entries, e.value.length < (T.key e).length

/-- Where two braces are passed on before a key, the output is longer. -/
theorem Passes.length_lt {out w' F : List Char} (passes : Passes T w b out w') (short : Short T)
    (opening : T.opening = '{') (both : w = ['{', '{']) (straddles : T.Straddles (b ++ F)) :
    (T.expand (w ++ (b ++ F))).length < (out ++ T.expand (w' ++ F)).length := by
  rw [← passes.odd F both straddles]
  obtain ⟨e, member, rest, whole⟩ := straddles
  have fewer := short e member
  rw [both, ← opening, ← whole, Table.expand_straddle member, Table.expand_tail member]
  simp only [Table.key, List.length_cons, List.length_append, List.length_nil] at fewer ⊢
  omega

/-- The buffers are delivered, and expanded where no key is straddled. -/
theorem deliver_spec (entries : T.entries ≠ []) {bufs : List (List Char)}
    (nonempty : ∀ b ∈ bufs, b ≠ []) (holding : Holding T br w) :
    ∃ out, br.deliver bufs = some out ∧
      (¬Straddled T (braces w) bufs → out = T.expand (w ++ bufs.flatten)) ∧
      (Short T → (T.expand (w ++ bufs.flatten)).length ≤ out.length ∧
        (Straddled T (braces w) bufs → (T.expand (w ++ bufs.flatten)).length < out.length)) := by
  induction bufs generalizing br w with
  | nil =>
    refine ⟨w, congrArg some (close_eq holding), fun _ => ?_, fun _ => ⟨?_, False.elim⟩⟩
    · rw [List.flatten_nil, List.append_nil, holding.expand_eq]
    · rw [List.flatten_nil, List.append_nil, holding.expand_eq]
  | cons b bufs ih =>
    obtain ⟨out, br', w', put, holding', passes⟩ :=
      put_passes entries holding (nonempty b List.mem_cons_self)
    obtain ⟨more, deliver_, exact_, bound⟩ :=
      ih (fun b' member => nonempty b' (.tail _ member)) holding'
    refine ⟨out ++ more, ?_, ?_, ?_⟩
    · rw [deliver, put]
      simp only [Option.bind_eq_bind, Option.bind_some]
      rw [deliver_]
      rfl
    · intro free
      have now : ¬(w = ['{', '{'] ∧ T.Straddles (b ++ bufs.flatten)) :=
        fun both => free (.inl ⟨holding.braces_eq_two.mpr both.1, both.2⟩)
      have later : ¬Straddled T (braces w') bufs := by
        rw [passes.count]
        exact fun straddled => free (.inr straddled)
      rw [exact_ later, List.flatten_cons, passes.even _ now]
    · intro short
      obtain ⟨bounded, strict⟩ := bound short
      by_cases now : w = ['{', '{'] ∧ T.Straddles (b ++ bufs.flatten)
      · have longer := passes.length_lt short holding.serves.1 now.1 now.2
        rw [List.flatten_cons]
        simp only [List.length_append] at longer ⊢
        constructor <;> intros <;> omega
      · have same := passes.even _ now
        rw [List.flatten_cons, same]
        simp only [List.length_append]
        refine ⟨by omega, fun straddled => ?_⟩
        have later : Straddled T (braces w') bufs := by
          rw [passes.count]
          rcases straddled with ⟨two, straddles⟩ | straddled
          · exact absurd ⟨holding.braces_eq_two.mp two, straddles⟩ now
          · exact straddled
        have := strict later
        omega

end BufferReplace

/-! ## `content_replace` -/

/-- The keys of `content_replace` and the request's values for them. -/
def replacements (protocol host : List Char) : Table Char where
  opening := '{'
  entries := [⟨"Protocol\x7d\x7d".toList, protocol⟩, ⟨"Host\x7d\x7d".toList, host⟩]
  nonempty := by simp
  clear := by simp
  apart := by simp

/-- A key of `content_replace` begins with the second of two braces. -/
def BeginsInside (t : List Char) : Prop :=
  "\x7bProtocol\x7d\x7d".toList <+: t ∨ "\x7bHost\x7d\x7d".toList <+: t

instance (t : List Char) : Decidable (BeginsInside t) :=
  inferInstanceAs (Decidable (_ ∨ _))

/-- Some buffer begins with the rest of a key of which the brace that ends the
buffer before is the first one, while the matcher holds that brace as its
second: the condition under which the key is missed. -/
def MissesKey : Nat → List (List Char) → Prop
  | _, [] => False
  | n, b :: bs => (n = 2 ∧ BeginsInside (b ++ bs.flatten)) ∨
      MissesKey (BufferReplace.held n b) bs

instance decideMissesKey (n : Nat) : (bufs : List (List Char)) → Decidable (MissesKey n bufs)
  | [] => inferInstanceAs (Decidable False)
  | b :: bs =>
    have := decideMissesKey (BufferReplace.held n b) bs
    inferInstanceAs (Decidable ((n = 2 ∧ BeginsInside (b ++ bs.flatten)) ∨
      MissesKey (BufferReplace.held n b) bs))

theorem straddles_iff (protocol host t : List Char) :
    (replacements protocol host).Straddles t ↔ BeginsInside t := by
  simp [Table.Straddles, replacements, BeginsInside]

theorem straddled_iff (protocol host : List Char) {n : Nat} {bufs : List (List Char)} :
    BufferReplace.Straddled (replacements protocol host) n bufs ↔ MissesKey n bufs := by
  induction bufs generalizing n with
  | nil => exact Iff.rfl
  | cons b bufs ih => exact or_congr (and_congr_right fun _ => straddles_iff ..) ih

theorem transform_serves {only host protocol extension : List Char} {br : BufferReplace}
    (stream : transform only host protocol extension = some br) :
    BufferReplace.Holding (replacements protocol host) br [] := by
  unfold transform at stream
  split at stream
  · cases stream
  · cases stream
    exact ⟨⟨rfl, rfl⟩, rfl, fun no => absurd rfl no⟩

/-- However a template is split into buffers, it is delivered with the request's
values for its keys, for every request, exactly when no buffer begins inside a
key whose first brace the matcher has taken for a second one. -/
theorem deliver_expands_iff {bufs : List (List Char)} (nonempty : ∀ b ∈ bufs, b ≠ []) :
    (∀ only host protocol extension br, transform only host protocol extension = some br →
        br.deliver bufs = some ((replacements protocol host).expand bufs.flatten)) ↔
      ¬MissesKey 0 bufs := by
  constructor
  · intro expands misses
    have stream : transform [] ['x'] "http".toList [] =
        some ((BufferReplace.init.add "Protocol".toList "http".toList).add "Host".toList ['x']) :=
      rfl
    obtain ⟨out, delivered, -, bound⟩ :=
      BufferReplace.deliver_spec (by simp [replacements]) nonempty (transform_serves stream)
    rw [expands _ _ _ _ _ stream] at delivered
    cases delivered
    have short : BufferReplace.Short (replacements "http".toList ['x']) := by
      unfold BufferReplace.Short
      decide
    exact Nat.lt_irrefl _ ((bound short).2 ((straddled_iff ..).mpr misses))
  · intro free only host protocol extension br stream
    obtain ⟨out, delivered, exact_, -⟩ :=
      BufferReplace.deliver_spec (by simp [replacements]) nonempty (transform_serves stream)
    rw [delivered, exact_ fun straddled => free ((straddled_iff ..).mp straddled)]
    rfl

/-- Keys that straddle several buffers, and one that is not complete. -/
def parts : List (List Char) :=
  ["o-\x7b".toList, "\x7bPro".toList, "tocol\x7d\x7d-\x7b\x7bHo".toList,
    "st\x7d\x7d\x7b\x7bPr".toList]

theorem deliver_expands_parts :
    ∃ br, transform [] ['x'] "http".toList [] = some br ∧
      br.deliver parts = some ((replacements "http".toList ['x']).expand parts.flatten) :=
  ⟨_, rfl, (deliver_expands_iff (by decide)).mpr (by decide) [] ['x'] "http".toList [] _ rfl⟩

/-- Three braces before `Host`, in two buffers of which the first is two braces. -/
theorem deliver_misses_host :
    ¬∀ (bufs : List (List Char)), (∀ b ∈ bufs, b ≠ []) →
      ∀ only host protocol extension br, transform only host protocol extension = some br →
        br.deliver bufs = some ((replacements protocol host).expand bufs.flatten) := by
  intro expands
  have delivered := expands ["\x7b\x7b".toList, "\x7bHost\x7d\x7d".toList] (by decide)
    [] ['x'] "http".toList [] _ rfl
  revert delivered
  decide

end ActorNet.Http
