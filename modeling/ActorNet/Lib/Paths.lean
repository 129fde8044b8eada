import Mathlib.Data.List.DropRight
import Mathlib.Data.List.Infix

/-!
# Paths, resolved lexically

A path is its characters, a directory the list of the names from the root of the
file system. `resolve` follows the segments of a path from the working directory,
where `..` at the root stays there. What segments do to any directory is to climb
some levels and to go down some names (`walk_eq_climb`).
-/

namespace ActorNet.Lib.Paths

abbrev Path := List Char

abbrev Dir := List (List Char)

/-- The segments between the slashes. -/
def segments : Path → List (List Char)
  | [] => [[]]
  | c :: p =>
    if c = '/' then [] :: segments p
    else
      match segments p with
      | [] => [[c]]
      | s :: more => (c :: s) :: more

def isDot (s : List Char) : Bool := s == [] || s == ['.']

def isParent (s : List Char) : Bool := s == ['.', '.']

def enter (dir : Dir) (s : List Char) : Dir :=
  if isDot s then dir else if isParent s then dir.dropLast else dir ++ [s]

def walk (dir : Dir) (ss : List (List Char)) : Dir := ss.foldl enter dir

/-- Where a path begins. -/
def origin (cwd : Dir) (p : Path) : Dir := if p.head? = some '/' then [] else cwd

def resolve (cwd : Dir) (p : Path) : Dir := walk (origin cwd p) (segments p)

/-- The path names the directory or something under it. -/
def Inside (cwd : Dir) (root p : Path) : Prop := resolve cwd root <+: resolve cwd p

instance (cwd : Dir) (root p : Path) : Decidable (Inside cwd root p) :=
  inferInstanceAs (Decidable (resolve cwd root <+: resolve cwd p))

/-- One segment after so many levels up and these names down. -/
def follow (net : Nat × Dir) (s : List Char) : Nat × Dir :=
  if isDot s then net
  else if isParent s then
    if net.2 = [] then (net.1 + 1, []) else (net.1, net.2.dropLast)
  else (net.1, net.2 ++ [s])

/-- The levels that segments climb, and the names that they go down from there. -/
def climb (ss : List (List Char)) : Nat × Dir := ss.foldl follow (0, [])

variable {p q : Path} {dir : Dir} {ss ss' : List (List Char)} {s : List Char}

theorem segments_ne_nil (p : Path) : segments p ≠ [] := by
  cases p with
  | nil => simp [segments]
  | cons c p =>
    unfold segments
    split
    · simp
    · split <;> simp

theorem segments_append_slash (p q : Path) :
    segments (p ++ '/' :: q) = segments p ++ segments q := by
  induction p with
  | nil => simp [segments]
  | cons c p ih =>
    rw [List.cons_append, segments, segments, ih]
    split
    · rfl
    · cases first : segments p with
      | nil => exact absurd first (segments_ne_nil p)
      | cons s more => rfl

theorem segments_of_no_slash (free : '/' ∉ s) : segments s = [s] := by
  induction s with
  | nil => rfl
  | cons c s ih =>
    have other : c ≠ '/' := fun same => free (same ▸ List.mem_cons_self)
    rw [segments, if_neg other, ih fun member => free (.tail _ member)]

theorem walk_append : walk dir (ss ++ ss') = walk (walk dir ss) ss' := List.foldl_append ..

/-- What segments do to a directory. -/
theorem walk_eq_climb (dir : Dir) (ss : List (List Char)) :
    walk dir ss = dir.take (dir.length - (climb ss).1) ++ (climb ss).2 := by
  induction ss using List.reverseRecOn with
  | nil => simp [walk, climb]
  | append_singleton ss s ih =>
    have step : climb (ss ++ [s]) = follow (climb ss) s := by
      rw [climb, List.foldl_append]
      rfl
    have last : walk dir (ss ++ [s]) = enter (walk dir ss) s := walk_append
    rw [last, ih, step]
    unfold enter follow
    split
    · rfl
    split
    · split
      next empty =>
        rw [empty, List.append_nil, List.append_nil, List.dropLast_eq_take, List.length_take,
          List.take_take]
        congr 1
        omega
      next some_ => rw [List.dropLast_append_of_ne_nil some_]
    · rw [List.append_assoc]

/-- What is kept of a directory, and names behind it: whether this is inside
another directory that shares a begin with what is kept. -/
theorem prefix_append_iff {root kept names : Dir} (shared : kept <+: root ∨ root <+: kept) :
    root <+: kept ++ names ↔ root.drop kept.length <+: names := by
  rcases shared with ⟨more, rfl⟩ | ⟨more, rfl⟩
  · rw [List.drop_left]
    exact List.prefix_append_right_inj kept
  · have gone : root.drop (root ++ more).length = [] := by simp
    rw [gone, List.append_assoc]
    exact iff_of_true (List.prefix_append ..) List.nil_prefix

/-- Going down one more name. -/
theorem resolve_append_name {cwd : Dir} (some_ : p ≠ []) (free : '/' ∉ s) (dot : isDot s = false)
    (parent : isParent s = false) : resolve cwd (p ++ '/' :: s) = resolve cwd p ++ [s] := by
  have begin_ : origin cwd (p ++ '/' :: s) = origin cwd p := by
    cases p with
    | nil => exact absurd rfl some_
    | cons c p => rfl
  rw [resolve, begin_, segments_append_slash, walk_append, segments_of_no_slash free]
  show enter (resolve cwd p) s = _
  rw [enter, if_neg (by simp [dot]), if_neg (by simp [parent])]

/-! ## Putting text behind a path -/

/-- The path up to its last slash, which it includes. -/
def front (p : Path) : Path := p.rdropWhile (· != '/')

/-- What stands behind the last slash. -/
def last (p : Path) : List Char := p.rtakeWhile (· != '/')

/-- The directory that the last segment of a path is looked for in, when more
text follows the path. -/
def base (cwd : Dir) (p t : Path) : Dir := walk (origin cwd (p ++ t)) (segments (front p))

theorem front_append_last (p : Path) : front p ++ last p = p :=
  List.rdropWhile_append_rtakeWhile ..

theorem last_free (p : Path) : '/' ∉ last p := by
  intro member
  have other := List.mem_rtakeWhile_imp member
  simp at other

theorem front_eq (p : Path) : front p = [] ∨ ∃ q, front p = q ++ ['/'] := by
  by_cases empty : front p = []
  · exact .inl empty
  · have slash : (front p).getLast empty = '/' := by
      have stop := List.rdropWhile_last_not (· != '/') p empty
      unfold front
      simpa using stop
    exact .inr ⟨(front p).dropLast, by rw [← slash, List.dropLast_append_getLast]⟩

theorem resolve_append (cwd : Dir) (p t : Path) :
    resolve cwd (p ++ t) = walk (base cwd p t) (segments (last p ++ t)) := by
  have split : p ++ t = front p ++ (last p ++ t) := by
    rw [← List.append_assoc, front_append_last]
  have walked : segments (p ++ t) = (segments (front p)).dropLast ++ segments (last p ++ t) ∧
      (segments (front p)).dropLast ++ [[]] = segments (front p) := by
    rw [split]
    rcases front_eq p with empty | ⟨q, slash⟩
    · rw [empty]
      exact ⟨rfl, rfl⟩
    · rw [slash, List.append_assoc, segments_append_slash]
      have cut : ([] : Path) ++ (last p ++ t) = last p ++ t := rfl
      rw [List.singleton_append, segments_append_slash, segments]
      simp
  rw [resolve, base, walked.1, walk_append]
  congr 1
  rw [← walked.2, walk_append, walked.2]
  rfl

/-- The text goes on from the path: the names of the path that it climbs over are
the first names that it goes down again. -/
def Stays (cwd : Dir) (p t : Path) : Prop :=
  (resolve cwd p).drop ((base cwd p t).length - (climb (segments (last p ++ t))).1) <+:
    (climb (segments (last p ++ t))).2

instance (cwd : Dir) (p t : Path) : Decidable (Stays cwd p t) :=
  inferInstanceAs (Decidable (List.IsPrefix _ _))

/-- Of the base, a path keeps all but at most its last name. -/
theorem base_shared (cwd : Dir) (p t : Path) (n : Nat) :
    (base cwd p t).take n <+: resolve cwd p ∨ resolve cwd p <+: (base cwd p t).take n := by
  by_cases empty : p = []
  · subst empty
    left
    have begin_ : base cwd [] t = origin cwd t := rfl
    have whole : resolve cwd [] = cwd := rfl
    rw [begin_, whole, origin]
    split
    · simp
    · exact List.take_prefix ..
  · have same : origin cwd (p ++ t) = origin cwd p := by
      cases p with
      | nil => exact absurd rfl empty
      | cons c p => rfl
    have whole : resolve cwd p = enter (base cwd p t) (last p) := by
      have alone := resolve_append cwd p []
      rw [List.append_nil, List.append_nil, segments_of_no_slash (last_free p)] at alone
      rw [alone, base, base, List.append_nil, same]
      rfl
    rw [whole, enter]
    split
    · exact .inl (List.take_prefix ..)
    split
    · rcases Nat.lt_or_ge n (base cwd p t).length with short | long
      · left
        rw [List.dropLast_eq_take]
        exact List.take_prefix_take_left (by omega)
      · right
        rw [List.take_of_length_le long]
        exact List.dropLast_prefix _
    · exact .inl ((List.take_prefix ..).trans (List.prefix_append ..))

/-- What a path with more text behind it names is inside what the path names
exactly when the text stays there. -/
theorem inside_append_iff (cwd : Dir) (p t : Path) :
    Inside cwd p (p ++ t) ↔ Stays cwd p t := by
  rw [Inside, resolve_append, walk_eq_climb, prefix_append_iff (base_shared cwd p t _),
    List.length_take, Nat.min_eq_left (Nat.sub_le ..)]
  rfl

end ActorNet.Lib.Paths
