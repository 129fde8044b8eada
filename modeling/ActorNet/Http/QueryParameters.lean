import ActorNet.Lib.Bytes
import Mathlib.Data.List.Forall2
import Mathlib.Logic.Function.Basic

/-!
# Query parameters

How a connection takes the query off a url, and what `url_decode` makes of the
escapes in it. The standard decoding of a form is stated beside it: `+` is a
space, `%` and two hexadecimal digits are the byte with that value. `url_decode`
does that where the escapes are ones, but takes any two characters for digits.
-/

namespace ActorNet.Http

open Lib

def percent : Byte := 0x25
def plus : Byte := 0x2B
def space : Byte := 0x20
def ampersand : Byte := 0x26
def equalsSign : Byte := 0x3D
def questionMark : Byte := 0x3F

/-! ## The code -/

/-- `connection::hex_to_byte`; a `char` is signed. -/
def hexToByte (c : Byte) : Int :=
  if 97 ≤ c.toInt ∧ c.toInt ≤ 122 then c.toInt - 97 + 10
  else if 65 ≤ c.toInt ∧ c.toInt ≤ 90 then c.toInt - 65 + 10
  else c.toInt - 48

/-- `connection::hexstr_to_char`. -/
def hexstrToChar (high low : Byte) : Byte := BitVec.ofInt 8 (hexToByte high * 16 + hexToByte low)

/-- The loop of `url_decode` from a position of the input on. -/
def urlDecodeLoop : (input : List Byte) → (buff : List Byte) → Option (List Byte)
  | [], buff => some buff
  | c :: rest, buff =>
      if c = percent then
        match rest with
        | high :: low :: rest => urlDecodeLoop rest (buff ++ [hexstrToChar high low])
        | [] | [_] => none
      else if c = plus then urlDecodeLoop rest (buff ++ [space])
      else urlDecodeLoop rest (buff ++ [c])

/-- `connection::url_decode`: whether it succeeds, and its output argument. -/
def urlDecode (input out : List Byte) : Bool × List Byte :=
  match urlDecodeLoop input [] with
  | some buff => (true, buff)
  | none => (false, out)

/-- `request::query_parameters`. -/
abbrev QueryParameters := List Byte → Option (List Byte)

/-- `connection::add_param`. -/
def addParam (params : QueryParameters) (param : List Byte) : QueryParameters :=
  -- without an `=` the key is all of it, as `npos` is not less than any length
  let split := (param.idxOf? equalsSign).getD param.length
  if split ≥ param.length - 1 then
    match urlDecode (param.take split) [] with
    | (true, key) => Function.update params key (some [])
    | (false, _) => params
  else
    match urlDecode (param.take split) [], urlDecode (param.drop (split + 1)) [] with
    | (true, key), (true, value) => Function.update params key (some value)
    | _, _ => params

/-- The loop of `set_query_param` from `curr` on. -/
def addParams (params : QueryParameters) (query : List Byte) : QueryParameters :=
  match _ : query.idxOf? ampersand with
  | none => addParam params query
  | some endParam => addParams (addParam params (query.take endParam)) (query.drop (endParam + 1))
termination_by query.length
decreasing_by
  have inside := (List.idxOf?_eq_some_iff.mp ‹_›).1
  rw [List.length_drop]
  omega

/-- `connection::set_query_param`: what it returns, and the parameters. -/
def setQueryParam (url : List Byte) (params : QueryParameters) : List Byte × QueryParameters :=
  match url.idxOf? questionMark with
  | none => (url, params)
  | some pos => (url.take pos, addParams params (url.drop (pos + 1)))

/-! ## The standard -/

/-- The value of a hexadecimal digit. -/
def hexValue (c : Byte) : Option Nat :=
  if 48 ≤ c.toNat ∧ c.toNat ≤ 57 then some (c.toNat - 48)
  else if 97 ≤ c.toNat ∧ c.toNat ≤ 102 then some (c.toNat - 97 + 10)
  else if 65 ≤ c.toNat ∧ c.toNat ≤ 70 then some (c.toNat - 65 + 10)
  else none

/-- The decoding of a form. -/
inductive Decodes : (text : List Byte) → (bytes : List Byte) → Prop where
  | nil : Decodes [] []
  | plus {text bytes : List Byte} (more : Decodes text bytes) :
      Decodes (plus :: text) (space :: bytes)
  | plain {text bytes : List Byte} (c : Byte) (notPercent : c ≠ percent) (notPlus : c ≠ plus)
      (more : Decodes text bytes) : Decodes (c :: text) (c :: bytes)
  | escape {text bytes : List Byte} {high low : Byte} {x y : Nat} (isHigh : hexValue high = some x)
      (isLow : hexValue low = some y) (more : Decodes text bytes) :
      Decodes (percent :: high :: low :: text) (BitVec.ofNat 8 (16 * x + y) :: bytes)

/-- Every `%` is followed by two hexadecimal digits. -/
def WellFormed (text : List Byte) : Prop :=
  ∀ front rest, text = front ++ percent :: rest →
    ∃ high low more, rest = high :: low :: more ∧ (hexValue high).isSome ∧ (hexValue low).isSome

/-- The text ends within an escape, any two bytes behind a `%` being one. -/
inductive CutOff : (text : List Byte) → Prop where
  | sign : CutOff [percent]
  | digit (c : Byte) : CutOff [percent, c]
  | escape {text : List Byte} (high low : Byte) (more : CutOff text) :
      CutOff (percent :: high :: low :: text)
  | plain {text : List Byte} (c : Byte) (notPercent : c ≠ percent) (more : CutOff text) :
      CutOff (c :: text)

/-! ## Digits -/

section

variable {c high low : Byte} {x y : Nat}

theorem hexToByte_eq (digit : hexValue c = some x) : hexToByte c = x := by
  have ascii : c.toInt = (c.toNat : Int) := by
    apply BitVec.toInt_eq_toNat_of_lt
    unfold hexValue at digit
    split at digit
    · omega
    · split at digit
      · omega
      · split at digit
        · omega
        · cases digit
  unfold hexToByte
  rw [ascii]
  unfold hexValue at digit
  split at digit
  · cases digit
    rw [if_neg (by omega), if_neg (by omega)]
    omega
  · split at digit
    · cases digit
      rw [if_pos (by omega)]
      omega
    · split at digit
      · cases digit
        rw [if_neg (by omega), if_pos (by omega)]
        omega
      · cases digit

theorem hexstrToChar_eq (isHigh : hexValue high = some x) (isLow : hexValue low = some y) :
    hexstrToChar high low = BitVec.ofNat 8 (16 * x + y) := by
  rw [hexstrToChar, hexToByte_eq isHigh, hexToByte_eq isLow, Int.mul_comm]
  exact BitVec.ofInt_natCast 8 (16 * x + y)

end

/-! ## Decoding -/

section

variable {text bytes : List Byte}

theorem urlDecodeLoop_plain {c : Byte} (notPercent : c ≠ percent) (text buff : List Byte) :
    urlDecodeLoop (c :: text) buff =
      urlDecodeLoop text (buff ++ [if c = plus then space else c]) := by
  rw [urlDecodeLoop.eq_def]
  simp only [if_neg notPercent]
  split
  · rfl
  · rfl

theorem Decodes.loop (decodes : Decodes text bytes) (buff : List Byte) :
    urlDecodeLoop text buff = some (buff ++ bytes) := by
  induction decodes generalizing buff with
  | nil => rw [urlDecodeLoop, List.append_nil]
  | plus _ ih =>
      rw [urlDecodeLoop_plain (by decide), if_pos rfl, ih, List.append_assoc]
      rfl
  | plain c notPercent notPlus _ ih =>
      rw [urlDecodeLoop_plain notPercent, if_neg notPlus, ih, List.append_assoc]
      rfl
  | escape isHigh isLow _ ih =>
      show urlDecodeLoop _ (buff ++ [hexstrToChar _ _]) = _
      rw [hexstrToChar_eq isHigh isLow, ih, List.append_assoc]
      rfl

/-- `url_decode` fails where it runs into the end only. -/
theorem urlDecodeLoop_none (text buff : List Byte) :
    urlDecodeLoop text buff = none ↔ CutOff text := by
  -- the loop fails in two cases: behind the sign, and behind one digit
  induction text, buff using urlDecodeLoop.induct with
  | case1 buff => exact iff_of_false nofun nofun
  | case2 buff high low rest ih =>
      show urlDecodeLoop rest _ = none ↔ _
      rw [ih]
      constructor
      · exact .escape high low
      · intro cut
        cases cut with
        | escape _ _ more => exact more
        | plain _ notPercent => exact absurd rfl notPercent
  | case3 buff => exact iff_of_true rfl .sign
  | case4 buff c => exact iff_of_true rfl (.digit c)
  | case5 rest buff notPercent ih =>
      rw [urlDecodeLoop_plain notPercent, if_pos rfl, ih]
      constructor
      · exact .plain _ notPercent
      · intro cut
        cases cut with
        | plain _ _ more => exact more
  | case6 c rest buff notPercent notPlus ih =>
      rw [urlDecodeLoop_plain notPercent, if_neg notPlus, ih]
      constructor
      · exact .plain c notPercent
      · intro cut
        cases cut with
        | sign => exact absurd rfl notPercent
        | digit => exact absurd rfl notPercent
        | escape => exact absurd rfl notPercent
        | plain _ _ more => exact more

/-! ## The grammar -/

theorem WellFormed.plain {c : Byte} (notPercent : c ≠ percent) :
    WellFormed (c :: text) ↔ WellFormed text := by
  constructor
  · intro formed front rest split
    exact formed (c :: front) rest (by rw [split, List.cons_append])
  · intro formed front rest split
    cases front with
    | nil =>
        cases split
        exact absurd rfl notPercent
    | cons _ front =>
        cases split
        exact formed front rest rfl

theorem WellFormed.escape (formed : WellFormed (percent :: text)) :
    ∃ high low more, text = high :: low :: more ∧ (hexValue high).isSome ∧
      (hexValue low).isSome ∧ WellFormed more := by
  obtain ⟨high, low, more, rfl, isHigh, isLow⟩ := formed [] text rfl
  refine ⟨high, low, more, rfl, isHigh, isLow, ?_⟩
  intro front rest split
  exact formed (percent :: high :: low :: front) rest (by rw [split]; rfl)

/-- A text in which every `%` is the begin of an escape has a decoding. -/
theorem WellFormed.decodes (formed : WellFormed text) : ∃ bytes, Decodes text bytes := by
  induction length : text.length using Nat.strongRecOn generalizing text with
  | ind n ih =>
      cases text with
      | nil => exact ⟨[], .nil⟩
      | cons c text =>
          by_cases sign : c = percent
          · subst sign
            obtain ⟨high, low, more, rfl, isHigh, isLow, formed⟩ := formed.escape
            obtain ⟨x, isHigh⟩ := Option.isSome_iff_exists.mp isHigh
            obtain ⟨y, isLow⟩ := Option.isSome_iff_exists.mp isLow
            obtain ⟨bytes, decodes⟩ := ih more.length (by simp at length; omega) formed rfl
            exact ⟨_, decodes.escape isHigh isLow⟩
          · obtain ⟨bytes, decodes⟩ :=
              ih text.length (by simp at length; omega) ((WellFormed.plain sign).mp formed) rfl
            by_cases space : c = plus
            · subst space
              exact ⟨_, decodes.plus⟩
            · exact ⟨_, decodes.plain c sign space⟩

/-- `url_decode` takes what is well formed, to its standard decoding, and leaves
its output argument alone otherwise, just for the texts that are well formed or
end within an escape. -/
theorem urlDecode_grammar_iff (text : List Byte) :
    (∀ out, ((urlDecode text out).1 = true ↔ WellFormed text) ∧
      ((urlDecode text out).1 = true → Decodes text (urlDecode text out).2) ∧
      ((urlDecode text out).1 = false → (urlDecode text out).2 = out)) ↔
    WellFormed text ∨ CutOff text := by
  constructor
  · intro grammar
    -- where the loop succeeds, the grammar it keeps to makes the text well formed
    cases run : urlDecodeLoop text [] with
    | none => exact .inr ((urlDecodeLoop_none text []).mp run)
    | some buff =>
        have success : (urlDecode text []).1 = true := by rw [urlDecode, run]
        exact .inl ((grammar []).1.mp success)
  · intro good out
    by_cases formed : WellFormed text
    · obtain ⟨bytes, decodes⟩ := formed.decodes
      have run : urlDecode text out = (true, bytes) := by
        rw [urlDecode, decodes.loop []]
        rfl
      rw [run]
      exact ⟨iff_of_true rfl formed, fun _ => decodes, nofun⟩
    · have cut := good.resolve_left formed
      have run : urlDecode text out = (false, out) := by
        rw [urlDecode, (urlDecodeLoop_none text []).mpr cut]
      rw [run]
      exact ⟨iff_of_false nofun formed, nofun, fun _ => rfl⟩

/-- `%zz` is decoded, to `S`. -/
theorem urlDecode_zz :
    urlDecode [percent, 0x7A, 0x7A] [] = (true, [0x53]) ∧ ¬ WellFormed [percent, 0x7A, 0x7A] := by
  refine ⟨by decide, ?_⟩
  intro formed
  obtain ⟨high, low, more, same, isHigh, -⟩ := formed [] [0x7A, 0x7A] rfl
  cases same
  exact absurd isHigh (by decide)

end

/-! ## Queries -/

/-- A percent-encoding of a byte string: each byte is itself or an escape, and
what has a meaning in a query is an escape. -/
inductive PercentEncodes : (bytes : List Byte) → (text : List Byte) → Prop where
  | nil : PercentEncodes [] []
  | plain {bytes text : List Byte} (c : Byte)
      (free : c ∉ [percent, plus, ampersand, equalsSign]) (more : PercentEncodes bytes text) :
      PercentEncodes (c :: bytes) (c :: text)
  | escape {bytes text : List Byte} {high low : Byte} {x y : Nat} (isHigh : hexValue high = some x)
      (isLow : hexValue low = some y) (more : PercentEncodes bytes text) :
      PercentEncodes (BitVec.ofNat 8 (16 * x + y) :: bytes) (percent :: high :: low :: text)

/-- The pairs of a query, their keys and values encoded. -/
def joinPairs (texts : List (List Byte × List Byte)) : List Byte :=
  List.intercalate [ampersand] (texts.map fun text => text.1 ++ equalsSign :: text.2)

def QueryParameters.setPair (params : QueryParameters) (pair : List Byte × List Byte) :
    QueryParameters :=
  Function.update params pair.1 (some pair.2)

/-- Each key has its last value. -/
def lastValues (pairs : List (List Byte × List Byte)) : QueryParameters :=
  fun key => pairs.reverse.lookup key

section

variable {bytes text key keyText value valueText : List Byte} {params : QueryParameters}

theorem PercentEncodes.decodes (encodes : PercentEncodes bytes text) : Decodes text bytes := by
  induction encodes with
  | nil => exact .nil
  | plain c free _ ih =>
      simp only [List.mem_cons, not_or] at free
      exact ih.plain c free.1 free.2.1
  | escape isHigh isLow _ ih => exact ih.escape isHigh isLow

theorem PercentEncodes.no_separator (encodes : PercentEncodes bytes text) {c : Byte}
    (separator : c = ampersand ∨ c = equalsSign) : c ∉ text := by
  have notDigit : hexValue c = none := by
    rcases separator with rfl | rfl
    · decide
    · decide
  have notPercent : c ≠ percent := by
    rcases separator with rfl | rfl
    · decide
    · decide
  induction encodes with
  | nil => exact List.not_mem_nil
  | plain d free _ ih =>
      simp only [List.mem_cons, not_or] at free ⊢
      refine ⟨?_, ih⟩
      rintro rfl
      rcases separator with rfl | rfl
      · exact free.2.2.1 rfl
      · exact free.2.2.2.1 rfl
  | escape isHigh isLow _ ih =>
      simp only [List.mem_cons, not_or]
      refine ⟨notPercent, ?_, ?_, ih⟩
      · rintro rfl
        rw [notDigit] at isHigh
        cases isHigh
      · rintro rfl
        rw [notDigit] at isLow
        cases isLow

theorem PercentEncodes.urlDecode (encodes : PercentEncodes bytes text) (out : List Byte) :
    urlDecode text out = (true, bytes) := by
  rw [Http.urlDecode, encodes.decodes.loop []]
  rfl

theorem PercentEncodes.nil_iff (encodes : PercentEncodes bytes text) (empty : text = []) :
    bytes = [] := by
  cases encodes with
  | nil => rfl
  | plain => cases empty
  | escape => cases empty

theorem idxOf?_separator {c : Byte} {front : List Byte} (fresh : c ∉ front) (rest : List Byte) :
    (front ++ c :: rest).idxOf? c = some front.length := by
  induction front with
  | nil => simp [List.idxOf?_cons]
  | cons d front ih =>
      simp only [List.mem_cons, not_or] at fresh
      have other : (d == c) = false := by simpa using Ne.symm fresh.1
      rw [List.cons_append, List.idxOf?_cons, other, ih fresh.2]
      rfl

theorem drop_separator (front rest : List Byte) (c : Byte) :
    (front ++ c :: rest).drop (front.length + 1) = rest := by
  rw [List.drop_append, List.drop_of_length_le (by omega), List.nil_append,
    Nat.add_sub_cancel_left, List.drop_one, List.tail_cons]

theorem addParam_encoded (keyEncodes : PercentEncodes key keyText)
    (valueEncodes : PercentEncodes value valueText) :
    addParam params (keyText ++ equalsSign :: valueText) =
      Function.update params key (some value) := by
  have fresh := keyEncodes.no_separator (.inr rfl)
  unfold addParam
  rw [idxOf?_separator fresh]
  dsimp only [Option.getD_some]
  rw [List.take_left, drop_separator, keyEncodes.urlDecode]
  by_cases empty : valueText = []
  · rw [valueEncodes.nil_iff empty, empty]
    apply if_pos
    rw [List.length_append, List.length_singleton]
    omega
  · have positive := List.length_pos_iff.mpr empty
    rw [valueEncodes.urlDecode]
    apply if_neg
    rw [List.length_append, List.length_cons]
    omega

theorem addParams_last (fresh : ampersand ∉ text) :
    addParams params text = addParam params text := by
  rw [addParams]
  split
  · rfl
  · rename_i found
    rw [List.idxOf?_eq_none_iff.mpr fresh] at found
    cases found

theorem addParams_pair (fresh : ampersand ∉ text) (query : List Byte) :
    addParams params (text ++ ampersand :: query) = addParams (addParam params text) query := by
  have index := idxOf?_separator fresh query
  rw [addParams]
  split
  · rename_i found
    rw [index] at found
    cases found
  · rename_i found
    rw [index] at found
    cases found
    rw [List.take_left, drop_separator]

end

theorem joinPairs_singleton (text : List Byte × List Byte) :
    joinPairs [text] = text.1 ++ equalsSign :: text.2 :=
  List.append_nil _

theorem joinPairs_cons (first second : List Byte × List Byte)
    (texts : List (List Byte × List Byte)) :
    joinPairs (first :: second :: texts) =
      (first.1 ++ equalsSign :: first.2) ++ ampersand :: joinPairs (second :: texts) := rfl

/-- The pairs are taken one after the other. -/
theorem addParams_pairs {pairs texts : List (List Byte × List Byte)}
    (encoded : List.Forall₂ (fun pair text =>
      PercentEncodes pair.1 text.1 ∧ PercentEncodes pair.2 text.2) pairs texts)
    (nonempty : pairs ≠ []) (params : QueryParameters) :
    addParams params (joinPairs texts) = pairs.foldl QueryParameters.setPair params := by
  induction encoded generalizing params with
  | nil => exact absurd rfl nonempty
  | @cons pair text pairs texts both encoded ih =>
      have fresh : ampersand ∉ text.1 ++ equalsSign :: text.2 := by
        simp only [List.mem_append, List.mem_cons, not_or]
        exact ⟨both.1.no_separator (.inl rfl), by decide, both.2.no_separator (.inl rfl)⟩
      cases encoded with
      | nil =>
          rw [joinPairs_singleton, addParams_last fresh, addParam_encoded both.1 both.2]
          rfl
      | cons _ _ =>
          rw [joinPairs_cons, addParams_pair fresh, addParam_encoded both.1 both.2,
            ih (List.cons_ne_nil _ _)]
          rfl

/-- What is set last is there, and what is not set as it was. -/
theorem foldl_setPair (pairs : List (List Byte × List Byte)) (params : QueryParameters) :
    pairs.foldl QueryParameters.setPair params =
      fun key => (pairs.reverse.lookup key).or (params key) := by
  induction pairs generalizing params with
  | nil => rfl
  | cons pair pairs ih =>
      rw [List.foldl_cons, ih]
      funext key
      rw [List.reverse_cons, List.lookup_append, Option.or_assoc, List.lookup_singleton]
      by_cases same : key = pair.1
      · subst same
        simp [QueryParameters.setPair]
      · simp [QueryParameters.setPair, same]

/-- A path and pairs that are encoded behind it come back from the url. -/
theorem setQueryParam_round_trip {path : List Byte} (noQuery : questionMark ∉ path)
    {pairs texts : List (List Byte × List Byte)} (nonempty : pairs ≠ [])
    (encoded : List.Forall₂ (fun pair text =>
      PercentEncodes pair.1 text.1 ∧ PercentEncodes pair.2 text.2) pairs texts) :
    setQueryParam (path ++ questionMark :: joinPairs texts) (fun _ => none) =
      (path, lastValues pairs) := by
  unfold setQueryParam
  rw [idxOf?_separator noQuery]
  dsimp only
  rw [List.take_left, drop_separator, addParams_pairs encoded nonempty, foldl_setPair]
  congr 1
  funext key
  exact Option.or_none

/-- `/a?q=%23&q=` -/
theorem setQueryParam_round_trip_twice :
    setQueryParam ([0x2F, 0x61] ++ questionMark :: joinPairs
        [([0x71], [percent, 0x32, 0x33]), ([0x71], [])]) (fun _ => none) =
      ([0x2F, 0x61], lastValues [([0x71], [0x23]), ([0x71], [])]) :=
  setQueryParam_round_trip (by decide) (by decide)
    (.cons ⟨.plain 0x71 (by decide) .nil, @PercentEncodes.escape [] [] 0x32 0x33 2 3 rfl rfl .nil⟩
      (.cons ⟨.plain 0x71 (by decide) .nil, .nil⟩ .nil))

end ActorNet.Http
