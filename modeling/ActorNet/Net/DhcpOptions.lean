import ActorNet.Net.Dhcp

/-!
# The grammar of DHCP options

An option is a type, a length byte and that many bytes; a pad is a single byte,
and the end stops the list. `parse_options` knows the end but not the pad, whose
next byte it takes for a length, and it reads the value of an option by its type
whatever length is declared. The options that its loop meets are recorded here,
and compared with those of the grammar.
-/

namespace ActorNet.Net.Dhcp

open Lib

namespace IpInfo

/-! ## The options that the loop meets -/

/-- `opt_type::PAD`. -/
def pad : Byte := 0

/-- The bytes of a value that `parse_options` knows. -/
def valueSize (type : Byte) : Option Nat :=
  (OptType.ofByte type).map fun type =>
    match type with
    | .messageType => 1
    | .interfaceMtu => 2
    | _ => 4

/-- An option: the bytes of the packet from its type on, and whether its value is
recorded. -/
structure Met where
  opt : List Byte
  recorded : Bool
  deriving DecidableEq, Repr

/-- The packet holds the value, behind the type and the length. -/
def holdsValue (type : Byte) (opt : List Byte) : Bool :=
  match valueSize type with
  | some size => decide (2 + size ≤ opt.length)
  | .none => false

/-- The turns of the loop of `parse_options`. -/
def met : Nat → List Byte → List Met
  | _, [] => []
  | skip + 1, _ :: rest => met skip rest
  | 0, type :: rest =>
      if type = OptType.end_.value then []
      else
        match rest with
        | [] => []
        | len :: _ => ⟨type :: rest, holdsValue type (type :: rest)⟩ :: met (1 + len.toNat) rest

/-- The options of the grammar: a pad is passed over, and a value is recorded that
the declared length covers. -/
def grammar : Nat → List Byte → List Met
  | _, [] => []
  | skip + 1, _ :: rest => grammar skip rest
  | 0, type :: rest =>
      if type = pad then grammar 0 rest
      else if type = OptType.end_.value then []
      else
        match rest with
        | [] => []
        | len :: _ =>
            ⟨type :: rest, holdsValue type (type :: rest) &&
              (valueSize type).all fun size => decide (size ≤ len.toNat)⟩ ::
              grammar (1 + len.toNat) rest

/-- From option to option up to the end: none of them is a pad with a byte behind
it, and a value that the packet holds is covered by its length. -/
def Regular : Nat → List Byte → Prop
  | _, [] => True
  | skip + 1, _ :: rest => Regular skip rest
  | 0, type :: rest =>
      type = OptType.end_.value ∨
        match rest with
        | [] => True
        | len :: _ =>
            type ≠ pad ∧
              (∀ size ∈ valueSize type, holdsValue type (type :: rest) = true → size ≤ len.toNat) ∧
              Regular (1 + len.toNat) rest

/-- What an option says, if its value is recorded. -/
def keep (info : IpInfo) (option : Met) : IpInfo :=
  match option.opt, option.recorded with
  | type :: _, true => info.takeOption type option.opt
  | _, _ => info

/-! ## One turn -/

theorem met_option {type : Byte} (notEnd : type ≠ OptType.end_.value) (len : Byte)
    (rest : List Byte) :
    met 0 (type :: len :: rest) =
      ⟨type :: len :: rest, holdsValue type (type :: len :: rest)⟩ ::
        met (1 + len.toNat) (len :: rest) := by
  rw [met.eq_def]
  exact if_neg notEnd

theorem grammar_option {type : Byte} (notPad : type ≠ pad) (notEnd : type ≠ OptType.end_.value)
    (len : Byte) (rest : List Byte) :
    grammar 0 (type :: len :: rest) =
      ⟨type :: len :: rest, holdsValue type (type :: len :: rest) &&
        (valueSize type).all fun size => decide (size ≤ len.toNat)⟩ ::
        grammar (1 + len.toNat) (len :: rest) := by
  rw [grammar.eq_def]
  exact (if_neg notPad).trans (if_neg notEnd)

theorem regular_option {type : Byte} (notEnd : type ≠ OptType.end_.value) (len : Byte)
    (rest : List Byte) :
    Regular 0 (type :: len :: rest) ↔
      type ≠ pad ∧
        (∀ size ∈ valueSize type, holdsValue type (type :: len :: rest) = true →
          size ≤ len.toNat) ∧
        Regular (1 + len.toNat) (len :: rest) :=
  or_iff_right notEnd

/-- The declared length makes no difference exactly if it covers a value that is
there. -/
theorem covered_iff {type len : Byte} {opt : List Byte} :
    holdsValue type opt = (holdsValue type opt &&
        (valueSize type).all fun size => decide (size ≤ len.toNat)) ↔
      ∀ size ∈ valueSize type, holdsValue type opt = true → size ≤ len.toNat := by
  cases holdsValue type opt with
  | false => exact ⟨fun _ _ _ held => absurd held Bool.false_ne_true, fun _ => rfl⟩
  | true =>
      rw [Bool.true_and, eq_comm, Option.all_eq_true]
      exact ⟨fun covered size known _ => of_decide_eq_true (covered size known),
        fun covered size known => decide_eq_true (covered size known rfl)⟩

/-! ## What is recorded -/

theorem takeOption_short {type : Byte} {opt : List Byte} (short : holdsValue type opt = false)
    (info : IpInfo) : info.takeOption type opt = info := by
  have missing {size : Nat} (less : ¬ 0 + (2 + size) ≤ opt.length) :
      getHeader 0 (2 + size) opt = .none := if_neg less
  unfold holdsValue valueSize at short
  unfold takeOption
  cases known : OptType.ofByte type with
  | none => rfl
  | some t =>
      rw [known] at short
      cases t with
      | messageType =>
          have short : ¬ 0 + (2 + 1) ≤ opt.length := by simpa using short
          simp only [missing short]
      | interfaceMtu =>
          have short : ¬ 0 + (2 + 2) ≤ opt.length := by simpa using short
          simp only [missing short]
      | _ =>
          have short : ¬ 0 + (2 + 4) ≤ opt.length := by simpa using short
          simp only [missing short]

/-- The loop keeps what it meets. -/
theorem parseOptions_met (skip : Nat) (bytes : List Byte) (info : IpInfo) :
    info.parseOptions skip bytes = (met skip bytes).foldl keep info := by
  induction skip, bytes using met.induct generalizing info with
  | case1 skip => cases skip <;> rfl
  | case2 skip b rest ih => exact ih info
  | case3 rest => rfl
  | case4 type notEnd =>
      show info.parseOptions 0 [type] = _
      unfold parseOptions met
      rw [if_neg notEnd, if_neg notEnd]
      rfl
  | case5 type notEnd len rest ih =>
      have step : info.parseOptions 0 (type :: len :: rest) =
          (info.takeOption type (type :: len :: rest)).parseOptions (1 + len.toNat)
            (len :: rest) := by
        rw [parseOptions.eq_def]
        exact if_neg notEnd
      rw [met_option notEnd len rest, step, ih, List.foldl_cons]
      congr 1
      cases held : holdsValue type (type :: len :: rest) with
      | true => rfl
      | false => exact takeOption_short held info

/-! ## Agreement with the grammar -/

/-- An option of the grammar starts inside the bytes. -/
theorem length_of_mem_grammar (skip : Nat) (bytes : List Byte) {option : Met}
    (mem : option ∈ grammar skip bytes) : option.opt.length ≤ bytes.length := by
  induction skip, bytes using grammar.induct with
  | case1 skip => cases skip <;> exact absurd mem List.not_mem_nil
  | case2 skip b rest ih => exact (ih mem).trans (Nat.le_succ _)
  | case3 rest ih =>
      have mem : option ∈ grammar 0 rest := by
        rw [grammar.eq_def] at mem
        exact mem
      exact (ih mem).trans (Nat.le_succ _)
  | case4 rest notPad =>
      rw [grammar.eq_def] at mem
      exact absurd mem List.not_mem_nil
  | case5 type notPad notEnd =>
      have none : grammar 0 [type] = [] := by
        rw [grammar.eq_def]
        exact (if_neg notPad).trans (if_neg notEnd)
      exact absurd (none ▸ mem) List.not_mem_nil
  | case6 type notPad notEnd len rest ih =>
      rw [grammar_option notPad notEnd len rest] at mem
      rcases List.mem_cons.mp mem with rfl | later
      · exact Nat.le_refl _
      · exact (ih later).trans (Nat.le_succ _)

/-- The loop meets the options of the grammar exactly if they are regular. -/
theorem met_eq_grammar_iff (skip : Nat) (bytes : List Byte) :
    met skip bytes = grammar skip bytes ↔ Regular skip bytes := by
  induction skip, bytes using met.induct with
  | case1 skip => cases skip <;> exact ⟨fun _ => trivial, fun _ => rfl⟩
  | case2 skip b rest ih => exact ih
  | case3 rest => exact ⟨fun _ => .inl rfl, fun _ => rfl⟩
  | case4 type notEnd =>
      -- a type that is the last byte ends both
      refine ⟨fun _ => .inr trivial, fun _ => ?_⟩
      have none : grammar 0 [type] = [] := by
        rw [grammar.eq_def]
        by_cases isPad : type = pad
        · exact if_pos isPad
        · exact (if_neg isPad).trans (if_neg notEnd)
      rw [met.eq_def, none]
      exact if_neg notEnd
  | case5 type notEnd len rest ih =>
      rw [met_option notEnd len rest, regular_option notEnd len rest]
      by_cases isPad : type = pad
      · -- What the grammar finds behind the pad starts later than the pad.
        refine ⟨fun same => ?_, fun regular => absurd isPad regular.1⟩
        have mem : (⟨type :: len :: rest, holdsValue type (type :: len :: rest)⟩ : Met) ∈
            grammar 0 (len :: rest) := by
          have pads : grammar 0 (type :: len :: rest) = grammar 0 (len :: rest) := by
            rw [grammar.eq_def]
            exact if_pos isPad
          rw [← pads, ← same]
          exact List.mem_cons_self
        have shorter := length_of_mem_grammar 0 (len :: rest) mem
        exact absurd shorter (Nat.not_succ_le_self _)
      · rw [grammar_option isPad notEnd len rest, List.cons.injEq, ih, Met.mk.injEq,
          covered_iff]
        exact ⟨fun same => ⟨isPad, same.1.2, same.2⟩, fun regular =>
          ⟨⟨rfl, regular.2.1⟩, regular.2.2⟩⟩

end IpInfo

end ActorNet.Net.Dhcp
