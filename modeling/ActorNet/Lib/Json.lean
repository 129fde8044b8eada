import Mathlib.Data.List.Basic

/-!
# JSON texts

A text is read in two steps. `lex` is an automaton that cuts the characters into
tokens and decodes the string literals; `Value.tokens` is the grammar, the tokens
of a value. `Reads t j` says that `t` is a JSON text of the value `j`. Blanks
between tokens are insignificant, and `compact` removes them.

The main fact about literals is `lex_literal_iff`: characters between quotation
marks decode to themselves only when each of them is `plain`.
-/

namespace ActorNet.Lib.Json

/-- A text as its characters. -/
abbrev Text := List Char

/-! ## Tokens -/

inductive Token
  | lbrace
  | rbrace
  | lbracket
  | rbracket
  | comma
  | colon
  | str (s : Text)
  | word (w : Text)
  deriving DecidableEq, Repr

/-- What the lexer has read of a token that is not complete. The characters are
kept in reverse. -/
inductive Mode
  | blank
  | word (read : Text)
  | quoted (read : Text)
  | escape (read : Text) (lead : Option Nat)
  | hex (read : Text) (lead : Option Nat) (count code : Nat)
  | trail (read : Text) (lead : Nat)
  deriving DecidableEq, Repr

def isBlank (c : Char) : Bool := c == ' ' || c == '\t' || c == '\n' || c == '\r'

def isWord (c : Char) : Bool := c.isAlphanum || c == '+' || c == '-' || c == '.'

/-- A character that a literal can hold as it is. -/
def isPlain (c : Char) : Bool := c != '"' && c != '\\' && 0x20 ≤ c.toNat

def plain (s : Text) : Bool := s.all isPlain

def punctuation : Char → Option Token
  | '{' => some .lbrace
  | '}' => some .rbrace
  | '[' => some .lbracket
  | ']' => some .rbracket
  | ',' => some .comma
  | ':' => some .colon
  | _ => none

def escaped : Char → Option Char
  | '"' => some '"'
  | '\\' => some '\\'
  | '/' => some '/'
  | 'b' => some (Char.ofNat 8)
  | 'f' => some (Char.ofNat 12)
  | 'n' => some '\n'
  | 'r' => some '\r'
  | 't' => some '\t'
  | _ => none

def hexDigit (c : Char) : Option Nat :=
  if '0' ≤ c ∧ c ≤ '9' then some (c.toNat - '0'.toNat)
  else if 'a' ≤ c ∧ c ≤ 'f' then some (c.toNat - 'a'.toNat + 10)
  else if 'A' ≤ c ∧ c ≤ 'F' then some (c.toNat - 'A'.toNat + 10)
  else none

def isLead (code : Nat) : Bool := 0xd800 ≤ code && code < 0xdc00

def isTrail (code : Nat) : Bool := 0xdc00 ≤ code && code < 0xe000

/-- The end of a `\u` escape: a leading surrogate waits for its trailing one. -/
def unit (read : Text) (lead : Option Nat) (code : Nat) : Option Mode :=
  match lead with
  | none =>
    if isLead code then some (.trail read code)
    else if isTrail code then none
    else some (.quoted (Char.ofNat code :: read))
  | some high =>
    if isTrail code then
      some (.quoted (Char.ofNat (0x10000 + (high - 0xd800) * 0x400 + (code - 0xdc00)) :: read))
    else none

/-- A character between two tokens. -/
def start (c : Char) : Option (List Token × Mode) :=
  if isBlank c then some ([], .blank)
  else if c = '"' then some ([], .quoted [])
  else if isWord c then some ([], .word [c])
  else (punctuation c).map fun token => ([token], .blank)

/-- One character: the tokens it completes and what is read then. -/
def step : Mode → Char → Option (List Token × Mode)
  | .blank, c => start c
  | .word read, c =>
    if isWord c then some ([], .word (c :: read))
    else (start c).map fun next => (.word read.reverse :: next.1, next.2)
  | .quoted read, c =>
    if c = '"' then some ([.str read.reverse], .blank)
    else if c = '\\' then some ([], .escape read none)
    else if isPlain c then some ([], .quoted (c :: read))
    else none
  | .escape read lead, c =>
    if c = 'u' then some ([], .hex read lead 0 0)
    else match lead, escaped c with
      | none, some d => some ([], .quoted (d :: read))
      | _, _ => none
  | .hex read lead count code, c =>
    match hexDigit c with
    | none => none
    | some d =>
      if count < 3 then some ([], .hex read lead (count + 1) (16 * code + d))
      else (unit read lead (16 * code + d)).map fun next => ([], next)
  | .trail read lead, c => if c = '\\' then some ([], .escape read (some lead)) else none

/-- The end of the text: only a word ends there. -/
def finish : Mode → Option (List Token)
  | .blank => some []
  | .word read => some [.word read.reverse]
  | _ => none

def lex : Mode → Text → Option (List Token)
  | mode, [] => finish mode
  | mode, c :: rest =>
    match step mode c with
    | none => none
    | some (tokens, next) => (lex next rest).map (tokens ++ ·)

/-! ## Values -/

structure Exponent where
  capital : Bool
  sign : Option Bool
  first : Fin 10
  more : List (Fin 10)
  deriving DecidableEq, Repr

/-- A number as it is written: the whole part has no leading zero. -/
structure Number where
  negative : Bool
  whole : Nat
  fraction : List (Fin 10)
  exponent : Option Exponent
  deriving DecidableEq, Repr

def digits (ds : List (Fin 10)) : Text := ds.map fun d : Fin 10 => Nat.digitChar d.val

def Exponent.text (e : Exponent) : Text :=
  (if e.capital then 'E' else 'e') ::
    ((match e.sign with | none => [] | some plus => [if plus then '+' else '-']) ++
      digits (e.first :: e.more))

def Number.text (n : Number) : Text :=
  (if n.negative then ['-'] else []) ++ Nat.toDigits 10 n.whole ++
    (if n.fraction = [] then [] else '.' :: digits n.fraction) ++
    (match n.exponent with | none => [] | some e => e.text)

def Number.ofInt (n : Int) : Number where
  negative := n < 0
  whole := n.natAbs
  fraction := []
  exponent := none

inductive Value
  | null
  | bool (b : Bool)
  | num (n : Number)
  | str (s : Text)
  | arr (elements : List Value)
  | obj (members : List (Text × Value))

mutual

/-- The grammar: the tokens of a value. -/
def Value.tokens : Value → List Token
  | .null => [.word "null".toList]
  | .bool b => [.word (if b then "true".toList else "false".toList)]
  | .num n => [.word n.text]
  | .str s => [.str s]
  | .arr [] => [.lbracket, .rbracket]
  | .arr (j :: js) => .lbracket :: (j.tokens ++ elementTokens js)
  | .obj [] => [.lbrace, .rbrace]
  | .obj ((name, j) :: ms) => .lbrace :: .str name :: .colon :: (j.tokens ++ memberTokens ms)

/-- The elements behind the first one, and the closing bracket. -/
def elementTokens : List Value → List Token
  | [] => [.rbracket]
  | j :: js => .comma :: (j.tokens ++ elementTokens js)

/-- The members behind the first one, and the closing brace. -/
def memberTokens : List (Text × Value) → List Token
  | [] => [.rbrace]
  | (name, j) :: ms => .comma :: .str name :: .colon :: (j.tokens ++ memberTokens ms)

end

/-- The text is JSON and denotes the value. -/
def Reads (t : Text) (j : Value) : Prop := lex .blank t = some j.tokens

def Valid (t : Text) : Prop := ∃ j, Reads t j

instance (t : Text) (j : Value) : Decidable (Reads t j) :=
  inferInstanceAs (Decidable (lex .blank t = some j.tokens))

/-- No value begins with a closing brace. -/
theorem not_reads_rbrace (rest : Text) (j : Value) : ¬Reads ('}' :: rest) j := by
  intro reads
  have tokens : ((lex .blank rest).map (Token.rbrace :: ·)) = some j.tokens := reads
  obtain ⟨ts, -, first⟩ := Option.map_eq_some_iff.mp tokens
  have head : some .rbrace = j.tokens.head? := congrArg List.head? first
  rw [Value.tokens.eq_def] at head
  split at head <;> cases head

/-! ## Lexing -/

variable {c : Char} {read s t u rest : Text} {mode next : Mode} {token : Token}
  {ts : List Token}

theorem lex_cons : lex mode (c :: rest) =
    match step mode c with
    | none => none
    | some (tokens, next) => (lex next rest).map (tokens ++ ·) := rfl

theorem lex_of_step (stepped : step mode c = some ([], next)) :
    lex mode (c :: rest) = lex next rest := by
  rw [lex_cons, stepped]
  exact Option.map_id' ..

theorem lex_punctuation (known : punctuation c = some token) :
    lex .blank (c :: rest) = (lex .blank rest).map (token :: ·) := by
  have started : step .blank c = some ([token], .blank) := by
    unfold punctuation at known
    split at known <;> first | (cases known; rfl) | cases known
  rw [lex_cons, started]
  rfl

/-- A punctuation mark is one token. -/
theorem lex_punctuation_iff (known : punctuation c = some token) :
    lex .blank (c :: rest) = some (token :: ts) ↔ lex .blank rest = some ts := by
  rw [lex_punctuation known]
  simp

/-! ### Words -/

/-- No word goes on at the front of the text. -/
def Stops (t : Text) : Prop := ∀ c ∈ t.head?, isWord c = false

theorem stops_nil : Stops [] := by
  intro c member
  cases member

theorem stops_cons (mark : isWord c = false) : Stops (c :: rest) := by
  intro d member
  cases member
  exact mark

theorem lex_word_stops (stops : Stops rest) :
    lex (.word read) rest = (lex .blank rest).map (.word read.reverse :: ·) := by
  cases rest with
  | nil => rfl
  | cons c rest =>
    have ends : isWord c = false := stops c rfl
    rw [lex_cons, lex_cons]
    simp only [step, ends]
    cases start c with
    | none => rfl
    | some next => simp [Function.comp_def]

theorem lex_word_append (letters : ∀ c ∈ u, isWord c = true) :
    lex (.word read) (u ++ rest) = lex (.word (u.reverse ++ read)) rest := by
  induction u generalizing read with
  | nil => rfl
  | cons c u ih =>
    have letter : step (.word read) c = some ([], .word (c :: read)) := by
      simp [step, letters c List.mem_cons_self]
    rw [List.cons_append, lex_of_step letter, ih fun d member => letters d (.tail _ member)]
    simp

theorem isWord_marks (letter : isWord c = true) : isBlank c = false ∧ c ≠ '"' := by
  constructor
  · by_contra blank
    simp only [isBlank, Bool.not_eq_false, Bool.or_eq_true, beq_iff_eq] at blank
    rcases blank with ((rfl | rfl) | rfl) | rfl <;> revert letter <;> decide
  · rintro rfl
    revert letter
    decide

/-- Letters and digits up to the next mark are one word. -/
theorem lex_word (letters : ∀ c ∈ u, isWord c = true) (nonempty : u ≠ []) (stops : Stops rest) :
    lex .blank (u ++ rest) = (lex .blank rest).map (.word u :: ·) := by
  cases u with
  | nil => exact absurd rfl nonempty
  | cons c u =>
    have letter : isWord c = true := letters c List.mem_cons_self
    have started : step .blank c = some ([], .word [c]) := by
      obtain ⟨blank, quote⟩ := isWord_marks letter
      simp [step, start, blank, quote, letter]
    rw [List.cons_append, lex_of_step started,
      lex_word_append fun d member => letters d (.tail _ member), lex_word_stops stops]
    simp

/-! ### Literals -/

/-- What is decoded of a literal so far, and whether an escape is open in it. -/
def Mode.held : Mode → Option (Text × Bool)
  | .quoted read => some (read, false)
  | .escape read _ => some (read, true)
  | .hex read _ _ _ => some (read, true)
  | .trail read _ => some (read, true)
  | _ => none

theorem unit_held {lead : Option Nat} {code : Nat} (closed : unit read lead code = some next) :
    next.held = some (read, true) ∨ ∃ d, next = .quoted (d :: read) := by
  unfold unit at closed
  cases lead with
  | none =>
    simp only at closed
    split at closed
    · cases closed
      exact .inl rfl
    split at closed
    · cases closed
    · cases closed
      exact .inr ⟨_, rfl⟩
  | some high =>
    simp only at closed
    split at closed
    · cases closed
      exact .inr ⟨_, rfl⟩
    · cases closed

theorem escaped_quote : escaped '"' = some '"' := rfl

/-- A character inside a literal ends it, goes into an escape or adds one
character to what is decoded. -/
theorem step_held {out : Bool} {tokens : List Token} (held : mode.held = some (read, out))
    (stepped : step mode c = some (tokens, next)) :
    (out = false ∧ c = '"' ∧ tokens = [.str read.reverse] ∧ next = .blank) ∨
      (tokens = [] ∧ next.held = some (read, true) ∧ c ≠ '"') ∨
      ∃ d, tokens = [] ∧ next = .quoted (d :: read) ∧ (out = false → d = c ∧ isPlain c = true) ∧
        (c = '"' → d = '"') := by
  cases mode with
  | blank => cases held
  | word => cases held
  | quoted =>
    cases held
    simp only [step] at stepped
    split at stepped
    · cases stepped
      exact .inl ⟨rfl, ‹_›, rfl, rfl⟩
    split at stepped
    · cases stepped
      exact .inr (.inl ⟨rfl, rfl, ‹_›⟩)
    split at stepped
    · cases stepped
      exact .inr (.inr ⟨c, rfl, rfl, fun _ => ⟨rfl, ‹_›⟩, id⟩)
    · cases stepped
  | escape _ lead =>
    cases held
    simp only [step] at stepped
    split at stepped
    · cases stepped
      exact .inr (.inl ⟨rfl, rfl, by rintro rfl; contradiction⟩)
    split at stepped
    next d simple =>
      cases stepped
      refine .inr (.inr ⟨d, rfl, rfl, nofun, ?_⟩)
      rintro rfl
      exact (Option.some.inj (escaped_quote.symm.trans simple)).symm
    · cases stepped
  | hex _ lead count code =>
    cases held
    simp only [step] at stepped
    split at stepped
    · cases stepped
    next d digit =>
      have inner : c ≠ '"' := by
        rintro rfl
        have none_ : hexDigit '"' = none := by decide
        rw [none_] at digit
        cases digit
      split at stepped
      · cases stepped
        exact .inr (.inl ⟨rfl, rfl, inner⟩)
      · obtain ⟨next', closed, same⟩ := Option.map_eq_some_iff.mp stepped
        cases same
        rcases unit_held closed with held | ⟨d, quoted⟩
        · exact .inr (.inl ⟨rfl, held, inner⟩)
        · exact .inr (.inr ⟨d, rfl, quoted, nofun, fun quote => absurd quote inner⟩)
  | trail _ lead =>
    cases held
    simp only [step] at stepped
    split at stepped
    · cases stepped
      exact .inr (.inl ⟨rfl, rfl, by rintro rfl; contradiction⟩)
    · cases stepped

/-- Inside a literal the next token is that literal, and it begins with what is
decoded of it. -/
theorem lex_held {out : Bool} (held : mode.held = some (read, out))
    (lexed : lex mode t = some ts) : ∃ e rest, ts = .str (read.reverse ++ e) :: rest := by
  induction t generalizing mode read out with
  | nil =>
    cases mode with
    | blank => cases held
    | word => cases held
    | quoted => cases lexed
    | escape => cases lexed
    | hex => cases lexed
    | trail => cases lexed
  | cons c t ih =>
    rw [lex_cons] at lexed
    split at lexed
    · cases lexed
    next tokens next stepped =>
      obtain ⟨later, behind, rfl⟩ := Option.map_eq_some_iff.mp lexed
      rcases step_held held stepped with ⟨-, -, rfl, -⟩ | ⟨rfl, held, -⟩ | ⟨d, rfl, rfl, -⟩
      · exact ⟨[], later, by simp⟩
      · exact ih held behind
      · obtain ⟨e, rest, rfl⟩ := ih rfl behind
        exact ⟨d :: e, rest, by simp⟩

/-- Characters without a quotation mark, before one. Each escape makes what is
decoded shorter than what is read, or puts a quotation mark into it. -/
theorem lex_until_quote {out : Bool} (held : mode.held = some (read, out)) (free : '"' ∉ u)
    (lexed : lex mode (u ++ '"' :: rest) = some (.str s :: ts)) :
    ∃ e, s = read.reverse ++ e ∧
      ((out = false ∧ plain u = true ∧ e = u ∧ lex .blank rest = some ts) ∨
        e.length < u.length + out.toNat ∨ '"' ∈ e.take (u.length + out.toNat)) := by
  induction u generalizing mode read out with
  | nil =>
    rw [List.nil_append, lex_cons] at lexed
    split at lexed
    · cases lexed
    next tokens next stepped =>
      obtain ⟨later, behind, same⟩ := Option.map_eq_some_iff.mp lexed
      rcases step_held held stepped with
        ⟨rfl, -, rfl, rfl⟩ | ⟨-, -, other⟩ | ⟨d, rfl, rfl, alone, quote⟩
      · cases same
        exact ⟨[], by simp, .inl ⟨rfl, rfl, rfl, behind⟩⟩
      · exact absurd rfl other
      · cases quote rfl
        -- only an escape takes the quotation mark in
        have open_ : out = true := by
          cases out with
          | true => rfl
          | false => exact absurd (alone rfl).2 (by decide)
        obtain ⟨e, rest', tokens⟩ := lex_held rfl behind
        rw [tokens] at same
        cases same
        refine ⟨'"' :: e, by simp, .inr (.inr ?_)⟩
        rw [open_]
        exact List.mem_cons_self
  | cons c u ih =>
    have other : c ≠ '"' := fun same => free (same ▸ List.mem_cons_self)
    have free' : '"' ∉ u := fun member => free (.tail _ member)
    rw [List.cons_append, lex_cons] at lexed
    split at lexed
    · cases lexed
    next tokens next stepped =>
      obtain ⟨later, behind, same⟩ := Option.map_eq_some_iff.mp lexed
      rcases step_held held stepped with
        ⟨-, quote, -⟩ | ⟨rfl, held', -⟩ | ⟨d, rfl, rfl, alone, -⟩
      · exact absurd quote other
      · cases same
        obtain ⟨e, decoded, ⟨impossible, -⟩ | short | quote⟩ := ih held' free' behind
        · cases impossible
        · refine ⟨e, decoded, .inr (.inl ?_)⟩
          simp only [Bool.toNat_true, List.length_cons] at short ⊢
          omega
        · refine ⟨e, decoded, .inr (.inr ?_)⟩
          exact List.take_subset_take_left e (by simp) quote
      · cases same
        obtain ⟨e, decoded, rest'⟩ := ih rfl free' behind
        refine ⟨d :: e, by rw [decoded]; simp, ?_⟩
        rcases rest' with ⟨-, even, rfl, ends⟩ | short | quote
        · cases out with
          | true => exact .inr (.inl (by simp))
          | false =>
            obtain ⟨rfl, isPlain⟩ := alone rfl
            exact .inl ⟨rfl, by simpa [plain, isPlain] using even, rfl, ends⟩
        · refine .inr (.inl ?_)
          simp only [Bool.toNat_false, List.length_cons] at short ⊢
          omega
        · refine .inr (.inr ?_)
          rw [List.length_cons, Nat.add_right_comm, List.take_succ_cons]
          exact .tail _ (List.take_subset_take_left e (by simp) quote)

theorem isPlain_marks (even : isPlain c = true) : c ≠ '"' ∧ c ≠ '\\' := by
  constructor <;> (rintro rfl; revert even; decide)

theorem lex_plain (even : plain u = true) :
    lex (.quoted read) (u ++ '"' :: rest) =
      (lex .blank rest).map (.str (read.reverse ++ u) :: ·) := by
  induction u generalizing read with
  | nil =>
    rw [List.nil_append, lex_cons]
    simp [step]
  | cons c u ih =>
    obtain ⟨first, even⟩ : isPlain c = true ∧ plain u = true := by simpa [plain] using even
    have stepped : step (.quoted read) c = some ([], .quoted (c :: read)) := by
      obtain ⟨quote, bar⟩ := isPlain_marks first
      simp [step, quote, bar, first]
    rw [List.cons_append, lex_of_step stepped, ih even]
    simp

/-- A text up to its first quotation mark. -/
theorem until_quote (u : Text) :
    ∃ a b, u = a ++ b ∧ '"' ∉ a ∧ (b = [] ∨ ∃ b', b = '"' :: b') := by
  induction u with
  | nil => exact ⟨[], [], rfl, by simp, .inl rfl⟩
  | cons c u ih =>
    by_cases quote : c = '"'
    · exact ⟨[], c :: u, rfl, by simp, .inr ⟨u, by rw [quote]⟩⟩
    · obtain ⟨a, b, whole, free, behind⟩ := ih
      refine ⟨c :: a, b, by rw [whole]; rfl, ?_, behind⟩
      rintro (_ | ⟨_, member⟩)
      · exact quote rfl
      · exact free member

/-- What stands between two quotation marks, where it is the begin of the string
it is meant for, decodes to that string only when every character is plain and
the string is there whole. -/
theorem lex_literal_iff (begins : u <+: s) :
    lex .blank ('"' :: (u ++ '"' :: rest)) = some (.str s :: ts) ↔
      plain s = true ∧ u = s ∧ lex .blank rest = some ts := by
  rw [lex_of_step rfl]
  constructor
  · intro lexed
    obtain ⟨a, b, whole, free, behind⟩ := until_quote u
    obtain ⟨later, more⟩ := begins
    have length : a.length ≤ s.length := by
      rw [← more, whole, List.append_assoc]
      simp
    have front : s.take a.length = a := by
      rw [← more, whole, List.append_assoc, List.take_left]
    obtain ⟨rest', lexed'⟩ : ∃ rest', u ++ '"' :: rest = a ++ '"' :: rest' ∧
        (b = [] → rest' = rest) := by
      rcases behind with rfl | ⟨b', rfl⟩
      · exact ⟨rest, by simp [whole], fun _ => rfl⟩
      · exact ⟨b' ++ '"' :: rest, by simp [whole], nofun⟩
    rw [lexed'.1] at lexed
    obtain ⟨e, decoded, ⟨-, even, rfl, ends'⟩ | short | quote⟩ := lex_until_quote rfl free lexed
    · cases decoded
      have ends : b = [] := by
        have := congrArg List.length more
        rw [whole] at this
        simp only [List.length_append, List.reverse_nil, List.nil_append] at this
        exact List.eq_nil_of_length_eq_zero (by omega)
      rw [ends, List.append_nil] at whole
      rw [lexed'.2 ends] at ends'
      exact ⟨even, whole, ends'⟩
    · rw [List.reverse_nil, List.nil_append] at decoded
      rw [decoded] at length
      simp only [Bool.toNat_false] at short
      omega
    · rw [List.reverse_nil, List.nil_append] at decoded
      rw [← decoded] at quote
      simp only [Bool.toNat_false, Nat.add_zero, front] at quote
      exact absurd quote free
  · rintro ⟨even, rfl, lexed⟩
    rw [lex_plain even, lexed]
    rfl

/-! ### Numbers -/

theorem isWord_of_isDigit (digit : c.isDigit = true) : isWord c = true := by
  simp [isWord, Char.isAlphanum, digit]

theorem isWord_digits (ds : List (Fin 10)) : ∀ c ∈ digits ds, isWord c = true := by
  intro c member
  obtain ⟨d, -, rfl⟩ := List.mem_map.mp member
  clear member
  revert d
  decide

theorem isWord_exponent (e : Exponent) : ∀ c ∈ e.text, isWord c = true := by
  intro c member
  simp only [Exponent.text, List.mem_cons, List.mem_append] at member
  rcases member with rfl | sign | digit
  · cases e.capital <;> decide
  · cases side : e.sign with
    | none => simp [side] at sign
    | some plus => cases plus <;> simp [side] at sign <;> subst sign <;> decide
  · exact isWord_digits _ c digit

theorem isWord_number (n : Number) : ∀ c ∈ n.text, isWord c = true := by
  intro c member
  simp only [Number.text, List.mem_append] at member
  rcases member with ((sign | whole) | fraction) | exponent
  · split at sign
    · rw [List.mem_singleton.mp sign]
      decide
    · cases sign
  · exact isWord_of_isDigit (Nat.isDigit_of_mem_toDigits (by decide) (by decide) whole)
  · split at fraction
    · cases fraction
    rcases List.mem_cons.mp fraction with rfl | digit
    · decide
    · exact isWord_digits _ c digit
  · cases e : n.exponent with
    | none => simp [e] at exponent
    | some e' => exact isWord_exponent e' c (by simpa [e] using exponent)

theorem text_ne_nil (n : Number) : n.text ≠ [] := by
  have whole : Nat.toDigits 10 n.whole ≠ [] := Nat.toDigits_ne_nil
  simp [Number.text, whole]

theorem lex_number_iff (n : Number) (stops : Stops rest) :
    lex .blank (n.text ++ rest) = some (.word n.text :: ts) ↔ lex .blank rest = some ts := by
  rw [lex_word (isWord_number n) (text_ne_nil n) stops]
  simp

/-! ## Printing

How the text of a value is put together from the texts of its parts. -/

/-- The text is a rendering of the value exactly when `ok` holds. -/
def Prints (t : Text) (v : Value) (ok : Prop) : Prop :=
  ∀ rest ts, Stops rest →
    (lex .blank (t ++ rest) = some (v.tokens ++ ts) ↔ ok ∧ lex .blank rest = some ts)

/-- A rendering of the elements behind the first one. -/
structure PrintsElements (t : Text) (vs : List Value) (ok : Prop) : Prop where
  stops : ∀ rest, Stops (t ++ ']' :: rest)
  lexes : ∀ rest ts, lex .blank (t ++ ']' :: rest) = some (elementTokens vs ++ ts) ↔
    ok ∧ lex .blank rest = some ts

/-- A rendering of the members behind the first one. -/
structure PrintsMembers (t : Text) (ms : List (Text × Value)) (ok : Prop) : Prop where
  stops : ∀ rest, Stops (t ++ '}' :: rest)
  lexes : ∀ rest ts, lex .blank (t ++ '}' :: rest) = some (memberTokens ms ++ ts) ↔
    ok ∧ lex .blank rest = some ts

variable {v : Value} {vs : List Value} {ms : List (Text × Value)} {gap gap' name : Text}
  {ok ok' ok'' : Prop}

theorem Prints.reads_iff (prints : Prints t v ok) : Reads t v ↔ ok := by
  have whole := prints [] [] stops_nil
  rw [List.append_nil, List.append_nil] at whole
  exact whole.trans (and_iff_left rfl)

theorem Prints.mono (prints : Prints t v ok) (same : ok ↔ ok') : Prints t v ok' := by
  intro rest ts stops
  rw [prints rest ts stops, same]

theorem PrintsElements.mono (prints : PrintsElements t vs ok) (same : ok ↔ ok') :
    PrintsElements t vs ok' :=
  ⟨prints.stops, fun rest ts => by rw [prints.lexes, same]⟩

theorem PrintsMembers.mono (prints : PrintsMembers t ms ok) (same : ok ↔ ok') :
    PrintsMembers t ms ok' :=
  ⟨prints.stops, fun rest ts => by rw [prints.lexes, same]⟩

theorem lex_gap (blanks : ∀ c ∈ gap, isBlank c = true) :
    lex .blank (gap ++ rest) = lex .blank rest := by
  induction gap with
  | nil => rfl
  | cons c gap ih =>
    have blank : step .blank c = some ([], .blank) := by
      simp [step, start, blanks c List.mem_cons_self]
    rw [List.cons_append, lex_of_step blank, ih fun d member => blanks d (.tail _ member)]

/-- A literal that keeps the whole of every plain string. -/
theorem lex_literal_plain_iff (begins : u <+: s) (keeps : plain s = true → u = s) :
    lex .blank ('"' :: (u ++ '"' :: rest)) = some (.str s :: ts) ↔
      plain s = true ∧ lex .blank rest = some ts := by
  rw [lex_literal_iff begins]
  constructor
  · rintro ⟨even, -, lexed⟩
    exact ⟨even, lexed⟩
  · rintro ⟨even, lexed⟩
    exact ⟨even, keeps even, lexed⟩

theorem prints_str (begins : u <+: s) (keeps : plain s = true → u = s) :
    Prints ('"' :: (u ++ ['"'])) (.str s) (plain s = true) := by
  intro rest ts _
  rw [List.cons_append, List.append_assoc, Value.tokens]
  exact lex_literal_plain_iff begins keeps

theorem prints_num (n : Number) : Prints n.text (.num n) True := by
  intro rest ts stops
  rw [Value.tokens, true_and]
  exact lex_number_iff n stops

theorem prints_bool (b : Bool) :
    Prints (if b then "true".toList else "false".toList) (.bool b) True := by
  intro rest ts stops
  have letters : ∀ c ∈ (if b then "true".toList else "false".toList), isWord c = true := by
    rw [← List.all_eq_true]
    cases b <;> rfl
  rw [Value.tokens, lex_word letters (by cases b <;> decide) stops, true_and,
    Option.map_eq_some_iff]
  constructor
  · rintro ⟨ts', rest, same⟩
    cases (List.cons.inj same).2
    exact rest
  · intro rest
    exact ⟨ts, rest, rfl⟩

theorem printsElements_nil : PrintsElements [] [] True where
  stops rest := stops_cons (by decide)
  lexes rest ts := (lex_punctuation_iff rfl).trans (iff_of_eq (true_and _)).symm

theorem printsElements_cons (first : Prints t v ok) (more : PrintsElements u vs ok') :
    PrintsElements (',' :: (t ++ u)) (v :: vs) (ok ∧ ok') where
  stops rest := stops_cons (by decide)
  lexes rest ts := by
    rw [elementTokens, List.cons_append, List.cons_append, List.append_assoc, List.append_assoc,
      lex_punctuation_iff rfl, first _ _ (more.stops rest), more.lexes, and_assoc]

theorem prints_arr_nil : Prints ['[', ']'] (.arr []) True := by
  intro rest ts _
  rw [Value.tokens, true_and]
  exact (lex_punctuation_iff rfl).trans (lex_punctuation_iff rfl)

theorem prints_arr_cons (first : Prints t v ok) (more : PrintsElements u vs ok') :
    Prints ('[' :: (t ++ (u ++ [']']))) (.arr (v :: vs)) (ok ∧ ok') := by
  intro rest ts _
  have split : '[' :: (t ++ (u ++ [']'])) ++ rest = '[' :: (t ++ (u ++ ']' :: rest)) := by simp
  rw [split, Value.tokens, List.cons_append, List.append_assoc, lex_punctuation_iff rfl,
    first _ _ (more.stops rest), more.lexes, and_assoc]

theorem printsMembers_nil : PrintsMembers [] [] True where
  stops rest := stops_cons (by decide)
  lexes rest ts := (lex_punctuation_iff rfl).trans (iff_of_eq (true_and _)).symm

/-- A name, the colon and a value. -/
theorem lex_member_iff (key : Prints ('"' :: (u ++ ['"'])) (.str name) ok)
    (blanks : ∀ c ∈ gap, isBlank c = true) (value : Prints t v ok') (stops : Stops rest) :
    lex .blank ('"' :: (u ++ '"' :: ':' :: (gap ++ (t ++ rest)))) =
        some (.str name :: .colon :: (v.tokens ++ ts)) ↔
      ok ∧ ok' ∧ lex .blank rest = some ts := by
  have colon := key (':' :: (gap ++ (t ++ rest))) (.colon :: (v.tokens ++ ts))
    (stops_cons (by decide))
  rw [List.cons_append, List.append_assoc, Value.tokens] at colon
  exact colon.trans (and_congr_right fun _ => by
    rw [lex_punctuation_iff rfl, lex_gap blanks, value _ _ stops])

theorem printsMembers_cons (key : Prints ('"' :: (u ++ ['"'])) (.str name) ok)
    (blanks : ∀ c ∈ gap, isBlank c = true) (blanks' : ∀ c ∈ gap', isBlank c = true)
    (value : Prints t v ok') (more : PrintsMembers s ms ok'') :
    PrintsMembers (',' :: (gap ++ '"' :: (u ++ '"' :: ':' :: (gap' ++ (t ++ s)))))
      ((name, v) :: ms) (ok ∧ ok' ∧ ok'') where
  stops rest := stops_cons (by decide)
  lexes rest ts := by
    have split : ',' :: (gap ++ '"' :: (u ++ '"' :: ':' :: (gap' ++ (t ++ s)))) ++ '}' :: rest =
        ',' :: (gap ++ '"' :: (u ++ '"' :: ':' :: (gap' ++ (t ++ (s ++ '}' :: rest))))) := by simp
    rw [split, memberTokens, List.cons_append, List.cons_append, List.cons_append,
      List.append_assoc, lex_punctuation_iff rfl, lex_gap blanks,
      lex_member_iff key blanks' value (more.stops rest), more.lexes, and_assoc, and_assoc]

theorem prints_obj_nil : Prints ['{', '}'] (.obj []) True := by
  intro rest ts _
  rw [Value.tokens, true_and]
  exact (lex_punctuation_iff rfl).trans (lex_punctuation_iff rfl)

theorem prints_obj_cons (key : Prints ('"' :: (u ++ ['"'])) (.str name) ok)
    (blanks : ∀ c ∈ gap, isBlank c = true) (value : Prints t v ok')
    (more : PrintsMembers s ms ok'') :
    Prints ('{' :: '"' :: (u ++ '"' :: ':' :: (gap ++ (t ++ (s ++ ['}'])))))
      (.obj ((name, v) :: ms)) (ok ∧ ok' ∧ ok'') := by
  intro rest ts _
  have split : '{' :: '"' :: (u ++ '"' :: ':' :: (gap ++ (t ++ (s ++ ['}'])))) ++ rest =
      '{' :: '"' :: (u ++ '"' :: ':' :: (gap ++ (t ++ (s ++ '}' :: rest)))) := by simp
  rw [split, Value.tokens, List.cons_append, List.cons_append, List.cons_append,
    List.append_assoc, lex_punctuation_iff rfl,
    lex_member_iff key blanks value (more.stops rest), more.lexes, and_assoc, and_assoc]

/-! ### Bodies of literals -/

/-- What stands between the quotation marks of a literal, decoded. -/
def body (u : Text) : Option Text :=
  match lex (.quoted []) (u ++ ['"']) with
  | some [.str s] => some s
  | _ => none

/-- A quotation mark that ends a text ends its last literal. -/
theorem lex_closed (lexed : lex mode (u ++ ['"']) = some ts) :
    lex mode (u ++ '"' :: rest) = (lex .blank rest).map (ts ++ ·) := by
  induction u generalizing mode ts with
  | nil =>
    rw [List.nil_append, lex_cons] at lexed ⊢
    split at lexed
    · cases lexed
    next tokens next stepped =>
      obtain ⟨none_, finished, rfl⟩ := Option.map_eq_some_iff.mp lexed
      have ends : next = .blank := by
        cases mode with
        | blank => cases stepped; cases finished
        | word => cases stepped; cases finished
        | quoted => cases stepped; rfl
        | escape read lead => cases lead <;> cases stepped; cases finished
        | hex => cases stepped
        | trail => cases stepped
      subst ends
      cases finished
      simp
  | cons c u ih =>
    rw [List.cons_append, lex_cons] at lexed ⊢
    split at lexed
    · cases lexed
    next tokens next stepped =>
      obtain ⟨later, lexed', rfl⟩ := Option.map_eq_some_iff.mp lexed
      simp only [ih lexed', Option.map_map]
      exact congrArg (fun f => (lex .blank rest).map f) (funext fun _ => by simp)

theorem prints_body (decoded : body u = some s) : Prints ('"' :: (u ++ ['"'])) (.str s) True := by
  intro rest ts _
  have lexed : lex (.quoted []) (u ++ ['"']) = some [.str s] := by
    unfold body at decoded
    split at decoded
    next lexed =>
      cases decoded
      exact lexed
    · cases decoded
  have closed := fun rest => @lex_closed u rest _ _ lexed
  rw [List.cons_append, List.append_assoc, lex_of_step rfl, Value.tokens]
  show lex (.quoted []) (u ++ '"' :: rest) = _ ↔ _
  rw [closed rest]
  simp

/-! ## Blanks -/

inductive Place
  | outside
  | inside
  | escaped
  deriving DecidableEq, Repr

/-- Where the text goes on behind a character. -/
def Place.behind : Place → Char → Place
  | .outside, c => if c = '"' then .inside else .outside
  | .inside, c => if c = '"' then .outside else if c = '\\' then .escaped else .inside
  | .escaped, _ => .inside

/-- The text without the blanks outside its literals. -/
def compact : Place → Text → Text
  | _, [] => []
  | place, c :: rest =>
    if place = .outside ∧ isBlank c = true then compact (place.behind c) rest
    else c :: compact (place.behind c) rest

/-- The texts differ only in insignificant blanks. -/
def SameUpToBlanks (t u : Text) : Prop := compact .outside t = compact .outside u

instance (t u : Text) : Decidable (SameUpToBlanks t u) :=
  inferInstanceAs (Decidable (compact .outside t = compact .outside u))

variable {site : Place}

theorem compact_append : compact site (t ++ rest) =
    compact site t ++ compact (t.foldl Place.behind site) rest := by
  induction t generalizing site with
  | nil => rfl
  | cons c t ih =>
    rw [List.cons_append, compact, compact, ih]
    split <;> rfl

theorem compact_blank (blank : isBlank c = true) (other : c ≠ '"') :
    compact .outside (c :: rest) = compact .outside rest := by
  simp [compact, Place.behind, blank, other]

theorem compact_mark (mark : isBlank c = false) (other : c ≠ '"') :
    compact .outside (c :: rest) = c :: compact .outside rest := by
  simp [compact, Place.behind, mark, other]

/-- The place of what the lexer has read. -/
def Mode.place : Mode → Place
  | .blank => .outside
  | .word _ => .outside
  | .escape _ _ => .escaped
  | _ => .inside

theorem start_place {tokens : List Token} (started : start c = some (tokens, next)) :
    next.place = Place.behind .outside c := by
  unfold start at started
  split at started
  next blank =>
    cases started
    have other : c ≠ '"' := by rintro rfl; revert blank; decide
    simp [Mode.place, Place.behind, other]
  split at started
  next quote =>
    cases started
    simp [Mode.place, Place.behind, quote]
  next other =>
    split at started
    · cases started
      simp [Mode.place, Place.behind, other]
    · obtain ⟨token, -, same⟩ := Option.map_eq_some_iff.mp started
      cases same
      simp [Mode.place, Place.behind, other]

theorem unit_place {lead : Option Nat} {code : Nat} (closed : unit read lead code = some next) :
    next.place = .inside := by
  unfold unit at closed
  cases lead <;> simp only at closed <;> split at closed
  · cases closed
    rfl
  · split at closed <;> cases closed
    rfl
  · cases closed
    rfl
  · cases closed

theorem step_place {tokens : List Token} (stepped : step mode c = some (tokens, next)) :
    next.place = mode.place.behind c := by
  cases mode with
  | blank => exact start_place stepped
  | word read =>
    simp only [step] at stepped
    split at stepped
    next letter =>
      cases stepped
      simp [Mode.place, Place.behind, (isWord_marks letter).2]
    next =>
      obtain ⟨pair, started, same⟩ := Option.map_eq_some_iff.mp stepped
      cases same
      exact start_place started
  | quoted read =>
    simp only [step] at stepped
    split at stepped
    next quote =>
      cases stepped
      simp [Mode.place, Place.behind, quote]
    next quote =>
      split at stepped
      next bar =>
        cases stepped
        simp [Mode.place, Place.behind, bar]
      next bar =>
        split at stepped <;> cases stepped
        simp [Mode.place, Place.behind, quote, bar]
  | escape read lead =>
    simp only [step] at stepped
    split at stepped
    · cases stepped
      rfl
    split at stepped <;> cases stepped
    rfl
  | hex read lead count code =>
    simp only [step] at stepped
    split at stepped
    · cases stepped
    next d digit =>
      have inner : Place.behind .inside c = .inside := by
        have quote : c ≠ '"' := by rintro rfl; revert digit; simp [hexDigit]
        have bar : c ≠ '\\' := by rintro rfl; revert digit; simp [hexDigit]
        simp [Place.behind, quote, bar]
      show next.place = Place.behind .inside c
      rw [inner]
      split at stepped
      · cases stepped
        rfl
      · obtain ⟨pair, closed, same⟩ := Option.map_eq_some_iff.mp stepped
        cases same
        exact unit_place closed
  | trail read lead =>
    simp only [step] at stepped
    split at stepped
    next bar =>
      cases stepped
      simp [Mode.place, Place.behind, bar]
    next => cases stepped

/-- A text that lexes ends outside its literals. -/
theorem lex_place (lexed : lex mode t = some ts) : t.foldl Place.behind mode.place = .outside := by
  induction t generalizing mode ts with
  | nil => cases mode <;> first | rfl | cases lexed
  | cons c t ih =>
    rw [lex_cons] at lexed
    split at lexed
    · cases lexed
    next tokens next stepped =>
      obtain ⟨later, behind, -⟩ := Option.map_eq_some_iff.mp lexed
      rw [List.foldl_cons, ← step_place stepped]
      exact ih behind

/-- The blanks behind a JSON text are insignificant on their own. -/
theorem Reads.compact_append (reads : Reads t v) :
    compact .outside (t ++ rest) = compact .outside t ++ compact .outside rest := by
  have place : t.foldl Place.behind .outside = .outside := lex_place reads
  rw [Json.compact_append, place]

end ActorNet.Lib.Json
