import ActorNet.Http.RequestParser
import Mathlib.Data.Option.Basic

/-!
# Tokens of a request

The string builder holds a token in two parts: what was kept, and the bytes since
the mark. `take_spec` says what a byte does in terms of the two together. The parts
matter only behind a value: there the kept one is what will be stored. So two
parsers that differ in the parts differ at most in their headers later on, and then
for good.
-/

namespace ActorNet.Http.RequestParser

open Lib

variable {g : Ragel} {p q w u : Parser} {c : Byte} {actions : List Action} {s : State}

/-! ## What a byte does -/

/-- A mark is open between the bytes of a token. -/
def State.isOpen : State → Bool
  | .operation | .uri | .uriCr | .point | .minor | .versionEnd | .field | .value _
  | .trailing _ => true
  | _ => false

/-- Behind a value, until it is stored. -/
def State.holds : State → Bool
  | .trailing _ | .crlf _ | .ended _ => true
  | _ => false

/-- The next byte stores the value. -/
def State.isEnded : State → Bool
  | .ended _ => true
  | _ => false

/-- The value as it would be stored if the line ended here. -/
def Parser.pending (p : Parser) : List Byte :=
  match p.cs with
  | .trailing _ => p.builder.value
  | _ => p.value

/-- The builder is empty or holds a token. -/
structure Parser.Formed (p : Parser) : Prop where
  opened : p.cs.isOpen = true → p.builder.sinceMark.isSome ∧ p.builder.token ≠ []
  closed : p.cs.isOpen = false → p.builder = ⟨[], none⟩

/-- What is done with the headers when a byte is taken. -/
def Parser.headersAfter (p : Parser) : Headers :=
  match p.cs with
  | .ended .first => p.req.headers.assign p.fieldName p.value
  | .ended .continued => p.req.headers.extend p.fieldName p.value
  | _ => p.req.headers

def Parser.storedAfter (p : Parser) : List (List Byte) :=
  match p.cs with
  | .ended _ => p.stored ++ [p.value]
  | _ => p.stored

/-- All that a byte changes, in terms of the token. -/
structure Took (p : Parser) (c : Byte) (s : State) (q : Parser) : Prop where
  cs : q.cs = s
  marked : s.isOpen = true → q.builder.sinceMark.isSome
  emptied : s.isOpen = false → q.builder = ⟨[], none⟩
  token : q.builder.token = if s.isOpen then p.builder.token ++ [c] else []
  pending : s.holds = true → q.pending = if p.cs.holds then p.pending else p.builder.token
  headers : q.req.headers = p.headersAfter
  stored : q.stored = p.storedAfter
  method : q.req.method = if s = .uriFirst then p.builder.token else p.req.method
  url : q.req.url = if s = .protocol 0 then p.builder.token else p.req.url
  version : q.req.version = if s = .startLf then p.builder.token else p.req.version
  fieldName : q.fieldName =
    if p.cs = .field ∧ s = .valueFirst .first then p.builder.token else p.fieldName

theorem Parser.Formed.of_open (formed : p.Formed) (is_open : p.cs.isOpen = true) :
    ∃ value bytes, p.builder = ⟨value, some bytes⟩ ∧ value ++ bytes ≠ [] := by
  obtain ⟨marked, nonempty⟩ := formed.opened is_open
  obtain ⟨bytes, since⟩ := Option.isSome_iff_exists.mp marked
  refine ⟨p.builder.value, bytes, ?_, ?_⟩
  · rw [← since]
  · rw [Builder.token, since] at nonempty
    exact nonempty

/-- `HTTP/` does not start over. -/
theorem protocol_ne_zero {n : Fin 5} (more : n ≠ 4) : n + 1 ≠ 0 := by
  intro wraps
  have last : n.val = 4 := by
    have value := congrArg Fin.val wraps
    rw [Fin.val_add] at value
    change (n.val + 1) % 5 = 0 at value
    omega
  exact more (Fin.ext last)

theorem take_spec (resumes : g.Resumes) (formed : p.Formed)
    (next : transition p.cs c = some (actions, s)) : Took p c s (p.take g actions s c) := by
  obtain ⟨cs, builder, req, fieldName, value, state, stored⟩ := p
  have opened := formed.of_open
  have closed := formed.closed
  clear formed
  dsimp only at opened closed next
  cases cs
  all_goals simp only [transition] at next
  all_goals repeat' split at next
  all_goals cases next
  all_goals try cases ‹Line›
  -- the builder is empty or has a mark, by the state
  all_goals first
    | obtain rfl := closed rfl
    | obtain ⟨value, bytes, rfl, nonempty⟩ := opened rfl
  all_goals clear opened closed
  all_goals constructor
  all_goals simp [Parser.take, Action.perform, Line.store, resumes.markStart, resumes.markEnd,
    resumes.getStr, resumes.unmark, Builder.advance, Builder.token, Parser.str, State.isOpen,
    State.holds, Parser.pending, Parser.headersAfter, Parser.storedAfter]
  -- the rest is about the byte after the last one of the protocol
  exact fun wraps => absurd wraps (protocol_ne_zero ‹_›)

theorem Took.formed (took : Took p c s q) : q.Formed where
  opened is_open := by
    rw [took.cs] at is_open
    refine ⟨took.marked is_open, ?_⟩
    rw [took.token, if_pos is_open]
    exact List.append_ne_nil_of_right_ne_nil _ (List.cons_ne_nil _ _)
  closed is_closed := by
    rw [took.cs] at is_closed
    exact took.emptied is_closed

/-! ## Headers with longer values -/

theorem sameName_trans {a b d : List Byte} (same : sameName a b = true) :
    sameName a d = sameName b d := by
  simp only [sameName, beq_iff_eq] at same ⊢
  rw [same]

theorem sameName_comm (a b : List Byte) : sameName a b = sameName b a := by
  simp only [sameName, Bool.beq_comm]

/-- One header changes, or is there for the first time. -/
theorem find_update (headers : Headers) (name other : List Byte) (f : List Byte → List Byte) :
    (headers.update name f).find other =
      if sameName name other then
        some (((headers.find name).map fun header => (header.1, f header.2)).getD (name, f []))
      else headers.find other := by
  induction headers with
  | nil =>
      simp only [Headers.update, Headers.find, List.find?_cons, List.find?_nil]
      split <;> simp_all
  | cons header headers ih =>
      simp only [Headers.find] at ih
      unfold Headers.update
      split
      -- names are compared without case, so it is the name that is there that counts
      · rename_i here
        rw [← sameName_trans here]
        simp only [Headers.find, List.find?_cons, here]
        split <;> simp_all
      · rename_i elsewhere
        simp only [Headers.find, List.find?_cons, ih]
        by_cases there : sameName header.1 other = true
        · have apart : ¬ sameName name other = true := by
            intro same
            rw [sameName_trans there, sameName_comm, same] at elsewhere
            exact elsewhere rfl
          simp [there, apart]
        · simp [there, elsewhere]

/-- The same names, and no value is longer on the left. -/
def Below (short long : Headers) : Prop :=
  ∀ name, Option.Rel (fun a b => a.1 = b.1 ∧ a.2.length ≤ b.2.length) (short.find name)
    (long.find name)

/-- Some value is longer on the right. -/
def Shorter (short long : Headers) : Prop :=
  ∃ name a b, short.find name = some a ∧ long.find name = some b ∧ a.2.length < b.2.length

theorem find_congr {name other : List Byte} (headers : Headers) (same : sameName name other = true) :
    headers.find name = headers.find other := by
  unfold Headers.find
  congr 1
  funext header
  rw [sameName_comm, sameName_trans same, sameName_comm]

theorem Below.refl (headers : Headers) : Below headers headers := by
  intro name
  cases headers.find name with
  | none => exact .none
  | some header => exact .some ⟨rfl, Nat.le_refl _⟩

section

variable {short long : Headers} {name value more : List Byte} {f g : List Byte → List Byte}

theorem Below.update (below : Below short long)
    (grows : ∀ v v', v.length ≤ v'.length → (f v).length ≤ (g v').length) :
    Below (short.update name f) (long.update name g) := by
  intro other
  rw [find_update, find_update]
  split
  · have related := below name
    generalize short.find name = a, long.find name = b at related ⊢
    cases related with
    | none => exact .some ⟨rfl, grows _ _ (Nat.le_refl _)⟩
    | some related => exact .some ⟨related.1, grows _ _ related.2⟩
  · exact below other

/-- An update that lets one value grow more. -/
theorem Shorter.of_update (below : Below short long)
    (grows : ∀ v v', v.length ≤ v'.length → (f v).length < (g v').length) :
    Shorter (short.update name f) (long.update name g) := by
  have here : sameName name name = true := by simp [sameName]
  have related := below name
  refine ⟨name, _, _, by rw [find_update, if_pos here], by rw [find_update, if_pos here], ?_⟩
  generalize short.find name = a, long.find name = b at related ⊢
  cases related with
  | none => exact grows _ _ (Nat.le_refl _)
  | some related => exact grows _ _ related.2

/-- An update that leaves the longer value longer. -/
theorem Shorter.update (shorter : Shorter short long)
    (keeps : ∀ a b, short.find name = some a → long.find name = some b →
      a.2.length < b.2.length → (f a.2).length < (g b.2).length) :
    Shorter (short.update name f) (long.update name g) := by
  obtain ⟨other, a, b, find_a, find_b, less⟩ := shorter
  by_cases same : sameName name other = true
  · have find_a' := (find_congr short same).trans find_a
    have find_b' := (find_congr long same).trans find_b
    refine ⟨other, (a.1, f a.2), (b.1, g b.2), ?_, ?_, keeps a b find_a' find_b' less⟩
    · rw [find_update, if_pos same, find_a']
      rfl
    · rw [find_update, if_pos same, find_b']
      rfl
  · refine ⟨other, a, b, ?_, ?_, less⟩
    · rw [find_update, if_neg same, find_a]
    · rw [find_update, if_neg same, find_b]

theorem Below.isSome (below : Below short long) (name : List Byte) :
    (short.find name).isSome = (long.find name).isSome := by
  have related := below name
  generalize short.find name = a, long.find name = b at related ⊢
  cases related <;> rfl

theorem Below.assign (below : Below short long) (le : value.length ≤ more.length) :
    Below (short.assign name value) (long.assign name more) := by
  unfold Headers.assign
  rw [below.isSome name]
  split
  · apply below.update
    intro v v' grows
    simp only [List.length_append]
    omega
  · exact below.update fun _ _ _ => le

theorem Below.extend (below : Below short long) (le : value.length ≤ more.length) :
    Below (short.extend name value) (long.extend name more) := by
  apply below.update
  intro v v' grows
  simp only [List.length_append]
  omega

theorem Shorter.of_assign (below : Below short long) (lt : value.length < more.length) :
    Shorter (short.assign name value) (long.assign name more) := by
  unfold Headers.assign
  rw [below.isSome name]
  split
  · apply Shorter.of_update below
    intro v v' grows
    simp only [List.length_append]
    omega
  · exact Shorter.of_update below fun _ _ _ => lt

theorem Shorter.of_extend (below : Below short long) (lt : value.length < more.length) :
    Shorter (short.extend name value) (long.extend name more) := by
  apply Shorter.of_update below
  intro v v' grows
  simp only [List.length_append]
  omega

theorem Shorter.assign (shorter : Shorter short long) (below : Below short long)
    (le : value.length ≤ more.length) :
    Shorter (short.assign name value) (long.assign name more) := by
  unfold Headers.assign
  rw [← below.isSome name]
  split
  · apply shorter.update
    intro a b _ _ less
    simp only [List.length_append]
    omega
  · rename_i absent
    apply shorter.update
    intro a b found _ _
    rw [found] at absent
    exact absurd rfl absent

theorem Shorter.extend (shorter : Shorter short long) (le : value.length ≤ more.length) :
    Shorter (short.extend name value) (long.extend name more) := by
  apply shorter.update
  intro a b _ _ less
  simp only [List.length_append]
  omega

end

/-! ## Two parsers at the same byte -/

/-- The parsers differ at most in what they would store of a value that has ended, and
in what they stored. -/
structure Alike (w u : Parser) : Prop where
  cs : w.cs = u.cs
  token : w.builder.token = u.builder.token
  fieldName : w.fieldName = u.fieldName
  method : w.req.method = u.req.method
  url : w.req.url = u.req.url
  version : w.req.version = u.req.version
  pending : w.cs.holds = true → w.pending <+: u.pending
  headers : Below w.req.headers u.req.headers

/-- They stored the same. -/
structure Equal (w u : Parser) : Prop where
  headers : w.req.headers = u.req.headers
  stored : w.stored = u.stored

variable {w' u' : Parser}

theorem pending_ended {line : Line} (ended : p.cs = .ended line) : p.pending = p.value := by
  rw [Parser.pending, ended]

/-- At the end of a line the values are what is pending. -/
theorem Alike.ended (alike : Alike w u) {line : Line} (ended : w.cs = .ended line) :
    w.value <+: u.value := by
  have held := alike.pending (by rw [ended]; rfl)
  rw [pending_ended ended, pending_ended (alike.cs.symm.trans ended)] at held
  exact held

theorem Alike.headersAfter (alike : Alike w u) : Below w.headersAfter u.headersAfter := by
  rw [Parser.headersAfter, Parser.headersAfter, ← alike.cs, ← alike.fieldName]
  cases cs : w.cs with
  | ended line =>
      have le := (alike.ended cs).length_le
      cases line with
      | first => exact alike.headers.assign le
      | continued => exact alike.headers.extend le
  | _ => exact alike.headers

theorem Alike.take (alike : Alike w u) (took : Took w c s w') (took' : Took u c s u') :
    Alike w' u' where
  cs := took.cs.trans took'.cs.symm
  token := by rw [took.token, took'.token, alike.token]
  fieldName := by rw [took.fieldName, took'.fieldName, alike.token, alike.cs, alike.fieldName]
  method := by rw [took.method, took'.method, alike.token, alike.method]
  url := by rw [took.url, took'.url, alike.token, alike.url]
  version := by rw [took.version, took'.version, alike.token, alike.version]
  pending := by
    intro holds
    rw [took.cs] at holds
    rw [took.pending holds, took'.pending holds, ← alike.cs, alike.token]
    split
    · exact alike.pending ‹_›
    · exact List.prefix_refl _
  headers := by
    rw [took.headers, took'.headers]
    exact alike.headersAfter

theorem Equal.take (equal : Equal w u) (alike : Alike w u)
    (even : w.cs.isEnded = true → w.pending = u.pending) (took : Took w c s w')
    (took' : Took u c s u') : Equal w' u' := by
  have value {line : Line} (ended : w.cs = .ended line) : w.value = u.value := by
    rw [← pending_ended ended, ← pending_ended (alike.cs.symm.trans ended)]
    exact even (by rw [ended]; rfl)
  constructor
  · rw [took.headers, took'.headers, Parser.headersAfter, Parser.headersAfter, ← alike.cs,
      ← alike.fieldName, ← equal.headers]
    cases cs : w.cs with
    | ended line => cases line <;> rw [value cs]
    | _ => rfl
  · rw [took.stored, took'.stored, Parser.storedAfter, Parser.storedAfter, ← alike.cs,
      ← equal.stored]
    cases cs : w.cs with
    | ended line => rw [value cs]
    | _ => rfl

/-- A longer value is stored. -/
theorem Alike.leak (alike : Alike w u) (uneven : w.pending ≠ u.pending)
    (is_ended : w.cs.isEnded = true) (took : Took w c s w') (took' : Took u c s u') :
    Shorter w'.req.headers u'.req.headers := by
  obtain ⟨line, ended⟩ : ∃ line, w.cs = .ended line := by
    cases cs : w.cs with
    | ended line => exact ⟨line, rfl⟩
    | _ =>
        rw [cs] at is_ended
        cases is_ended
  have prefix_ := alike.ended ended
  have less : w.value.length < u.value.length := by
    rw [pending_ended ended, pending_ended (alike.cs.symm.trans ended)] at uneven
    exact Nat.lt_of_le_of_ne prefix_.length_le fun same => uneven (prefix_.eq_of_length same)
  rw [took.headers, took'.headers, Parser.headersAfter, Parser.headersAfter, ← alike.cs,
    ← alike.fieldName, ended]
  cases line with
  | first => exact .of_assign alike.headers less
  | continued => exact .of_extend alike.headers less

/-- What was stored longer stays longer. -/
theorem Alike.shorter (alike : Alike w u) (shorter : Shorter w.req.headers u.req.headers)
    (took : Took w c s w') (took' : Took u c s u') : Shorter w'.req.headers u'.req.headers := by
  rw [took.headers, took'.headers, Parser.headersAfter, Parser.headersAfter, ← alike.cs,
    ← alike.fieldName]
  cases cs : w.cs with
  | ended line =>
      have le := (alike.ended cs).length_le
      cases line with
      | first => exact shorter.assign alike.headers le
      | continued => exact shorter.extend le
  | _ => exact shorter

end ActorNet.Http.RequestParser
