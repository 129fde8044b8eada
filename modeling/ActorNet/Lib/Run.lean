/-!
# Runs of a partial step function

A system is a function `step : σ → ε → Option σ`: `none` means that the event
is not enabled in that state. Every temporal statement of the development is
about `exec`, the run over a list of events, and `Along`, the condition that
each step of a run meets a side condition on the state before it and its event.
-/

namespace ActorNet.Lib

variable {σ ε : Type}

/-- The state after a list of events, when every one of them was enabled. -/
def exec (step : σ → ε → Option σ) : σ → List ε → Option σ
  | s, [] => some s
  | s, e :: es => (step s e).bind fun s' => exec step s' es

/-- Every step of the run from `s` meets `ok` on the state before the step. -/
def Along (step : σ → ε → Option σ) (ok : σ → ε → Prop) : σ → List ε → Prop
  | _, [] => True
  | s, e :: es => ok s e ∧ ∀ s', step s e = some s' → Along step ok s' es

/-- Guards that can be computed can be checked along a run. -/
instance Along.decidable {step : σ → ε → Option σ} {ok : σ → ε → Prop}
    [∀ s e, Decidable (ok s e)] : ∀ s es, Decidable (Along step ok s es)
  | _, [] => .isTrue trivial
  | s, e :: es =>
      match next : step s e with
      | none => decidable_of_iff (ok s e) (by simp [Along, next])
      | some s' =>
          haveI : Decidable (Along step ok s' es) := Along.decidable s' es
          decidable_of_iff (ok s e ∧ Along step ok s' es) (by simp [Along, next])

@[simp] theorem exec_nil (step : σ → ε → Option σ) (s : σ) : exec step s [] = some s := rfl

theorem exec_cons {step : σ → ε → Option σ} {s t : σ} {e : ε} {es : List ε} :
    exec step s (e :: es) = some t ↔ ∃ s', step s e = some s' ∧ exec step s' es = some t := by
  simp only [exec, Option.bind_eq_some_iff]

theorem exec_append {step : σ → ε → Option σ} {s t : σ} {es fs : List ε} :
    exec step s (es ++ fs) = some t ↔
      ∃ s', exec step s es = some s' ∧ exec step s' fs = some t := by
  induction es generalizing s with
  | nil => simp
  | cons e es ih =>
      simp only [List.cons_append, exec_cons, ih]
      constructor
      · rintro ⟨s₁, first, s₂, middle, last⟩
        exact ⟨s₂, ⟨s₁, first, middle⟩, last⟩
      · rintro ⟨s₂, ⟨s₁, first, middle⟩, last⟩
        exact ⟨s₁, first, s₂, middle, last⟩

theorem Along.and {step : σ → ε → Option σ} {ok ok' : σ → ε → Prop} {s : σ} {es : List ε}
    (first : Along step ok s es) (second : Along step ok' s es) :
    Along step (fun s e => ok s e ∧ ok' s e) s es := by
  induction es generalizing s with
  | nil => trivial
  | cons e es ih =>
      exact ⟨⟨first.1, second.1⟩, fun s' next => ih (first.2 s' next) (second.2 s' next)⟩

/-- Conditions that come to the same, under a third that holds along the run. -/
theorem Along.congr {step : σ → ε → Option σ} {ok a b : σ → ε → Prop} {s t : σ} {es : List ε}
    (along : Along step ok s es) (run : exec step s es = some t)
    (same : ∀ s e, ok s e → (a s e ↔ b s e)) : Along step a s es ↔ Along step b s es := by
  induction es generalizing s with
  | nil => exact Iff.rfl
  | cons e es ih =>
      obtain ⟨s', next, rest⟩ := exec_cons.mp run
      refine and_congr (same s e along.1) ?_
      have onward := ih (along.2 s' next) rest
      constructor
      · intro goesOn s'' next'
        cases next.symm.trans next'
        exact onward.mp (goesOn s' next)
      · intro goesOn s'' next'
        cases next.symm.trans next'
        exact onward.mpr (goesOn s' next)

/-- A condition on the events alone holds along every run over them. -/
theorem Along.of_mem {step : σ → ε → Option σ} {ok : ε → Prop} {es : List ε}
    (all : ∀ e ∈ es, ok e) (s : σ) : Along step (fun _ e => ok e) s es := by
  induction es generalizing s with
  | nil => trivial
  | cons e es ih =>
      obtain ⟨first, rest⟩ := List.forall_mem_cons.mp all
      exact ⟨first, fun s' _ => ih rest s'⟩

/-- The invariant rule for guarded runs: what every admissible step preserves
holds at the end of every admissible run. -/
theorem Along.invariant {step : σ → ε → Option σ} {ok : σ → ε → Prop} {I : σ → Prop}
    (preserved : ∀ s e s', I s → ok s e → step s e = some s' → I s')
    {s t : σ} {es : List ε} (holds : I s) (along : Along step ok s es)
    (run : exec step s es = some t) : I t := by
  induction es generalizing s with
  | nil => simpa using (Option.some.inj run) ▸ holds
  | cons e es ih =>
      obtain ⟨s', first, rest⟩ := exec_cons.mp run
      exact ih (preserved s e s' holds along.1 first) (along.2 s' first) rest

/-- The rule of further guards: what every admissible step from the invariant
meets besides its guard is met along every admissible run. -/
theorem Along.also {step : σ → ε → Option σ} {ok ok' : σ → ε → Prop} {I : σ → Prop}
    (preserved : ∀ s e s', I s → ok s e → step s e = some s' → I s')
    (meets : ∀ s e, I s → ok s e → ok' s e) {s : σ} {es : List ε} (holds : I s)
    (along : Along step ok s es) : Along step ok' s es := by
  induction es generalizing s with
  | nil => trivial
  | cons e es ih =>
      refine ⟨meets s e holds along.1, fun s' next => ?_⟩
      exact ih (preserved s e s' holds along.1 next) (along.2 s' next)

/-- The invariant rule for unguarded runs. -/
theorem exec_invariant {step : σ → ε → Option σ} {I : σ → Prop}
    (preserved : ∀ s e s', I s → step s e = some s' → I s')
    {s t : σ} {es : List ε} (holds : I s) (run : exec step s es = some t) : I t := by
  induction es generalizing s with
  | nil => simpa using (Option.some.inj run) ▸ holds
  | cons e es ih =>
      obtain ⟨s', first, rest⟩ := exec_cons.mp run
      exact ih (preserved s e s' holds first) rest

/-- The history rule: an invariant may speak of the events that have happened. -/
theorem Along.history {step : σ → ε → Option σ} {ok : σ → ε → Prop} {I : List ε → σ → Prop}
    (preserved : ∀ past s e s', I past s → ok s e → step s e = some s' → I (past ++ [e]) s')
    {past : List ε} {s t : σ} {es : List ε} (holds : I past s) (along : Along step ok s es)
    (run : exec step s es = some t) : I (past ++ es) t := by
  induction es generalizing past s with
  | nil => simpa using (Option.some.inj run) ▸ holds
  | cons e es ih =>
      obtain ⟨s', first, rest⟩ := exec_cons.mp run
      have onward := ih (preserved past s e s' holds along.1 first) (along.2 s' first) rest
      rwa [List.append_assoc] at onward

/-- Every state of the run from `s` meets `P`. -/
def Always (step : σ → ε → Option σ) (P : σ → Prop) : σ → List ε → Prop
  | s, [] => P s
  | s, e :: es => P s ∧ ∀ s', step s e = some s' → Always step P s' es

instance Always.decidable {step : σ → ε → Option σ} {P : σ → Prop} [∀ s, Decidable (P s)] :
    ∀ s es, Decidable (Always step P s es)
  | s, [] => inferInstanceAs (Decidable (P s))
  | s, e :: es =>
      match next : step s e with
      | none => decidable_of_iff (P s) (by simp [Always, next])
      | some s' =>
          haveI : Decidable (Always step P s' es) := Always.decidable s' es
          decidable_of_iff (P s ∧ Always step P s' es) (by simp [Always, next])

/-- The invariant rule for runs that stay in `P`: a step may use where it leads. -/
theorem Always.invariant {step : σ → ε → Option σ} {I P : σ → Prop}
    (preserved : ∀ s e s', I s → P s' → step s e = some s' → I s')
    {s t : σ} {es : List ε} (holds : I s) (always : Always step P s es)
    (run : exec step s es = some t) : I t := by
  induction es generalizing s with
  | nil => simpa using (Option.some.inj run) ▸ holds
  | cons e es ih =>
      obtain ⟨s', first, rest⟩ := exec_cons.mp run
      have onward := always.2 s' first
      have there : P s' := by
        cases es with
        | nil => exact onward
        | cons => exact onward.1
      exact ih (preserved s e s' holds there first) onward rest

/-- The rule of exact guards: when a step from a state of `I` meets its guard
just if it leads to `P`, the runs that stay in `P` are those along the guard. -/
theorem Along.iff_always {step : σ → ε → Option σ} {ok : σ → ε → Prop} {I P : σ → Prop}
    (sound : ∀ s, I s → P s)
    (preserved : ∀ s e s', I s → ok s e → step s e = some s' → I s')
    (exact : ∀ s e s', I s → step s e = some s' → P s' → ok s e)
    {s t : σ} {es : List ε} (holds : I s) (run : exec step s es = some t) :
    Always step P s es ↔ Along step ok s es := by
  induction es generalizing s with
  | nil => exact ⟨fun _ => trivial, fun _ => sound s holds⟩
  | cons e es ih =>
      obtain ⟨s', next, rest⟩ := exec_cons.mp run
      have begins : Always step P s' es → P s' := by
        intro always
        cases es with
        | nil => exact always
        | cons => exact always.1
      constructor
      · intro ⟨_, always⟩
        have met := exact s e s' holds next (begins (always s' next))
        have onward := (ih (preserved s e s' holds met next) rest).mp (always s' next)
        exact ⟨met, fun _ next' => Option.some.inj (next.symm.trans next') ▸ onward⟩
      · intro ⟨met, along⟩
        have onward := (ih (preserved s e s' holds met next) rest).mpr (along s' next)
        exact ⟨sound s holds, fun _ next' => Option.some.inj (next.symm.trans next') ▸ onward⟩

/-- Some step of the run from `s` to `t` met `P`, and what it led to is related
to `t` by `K`. -/
def Entered (step : σ → ε → Option σ) (P : σ → ε → σ → Prop) (K : σ → σ → Prop) (s : σ)
    (es : List ε) (t : σ) : Prop :=
  ∃ before e after s₁ s₂, es = before ++ e :: after ∧ exec step s before = some s₁ ∧
    step s₁ e = some s₂ ∧ P s₁ e s₂ ∧ K s₂ t

/-- The rule of entry: whoever is inside `A` at the end, and was not at the
begin, entered by a step, and what is kept inside is kept since then. -/
theorem Along.entered {step : σ → ε → Option σ} {ok : σ → ε → Prop} {I A : σ → Prop}
    {P : σ → ε → σ → Prop} {K : σ → σ → Prop}
    (preserved : ∀ s e s', I s → ok s e → step s e = some s' → I s')
    (enters : ∀ s e s', I s → ok s e → step s e = some s' → ¬A s → A s' → P s e s')
    (refl : ∀ s, K s s)
    (keeps : ∀ s₀ s e s', K s₀ s → I s → step s e = some s' → A s → A s' → K s₀ s')
    {s t : σ} {es : List ε} (holds : I s) (outside : ¬A s) (along : Along step ok s es)
    (run : exec step s es = some t) (inside : A t) : Entered step P K s es t := by
  have stepwise : ∀ past u e u',
      (I u ∧ exec step s past = some u ∧ (A u → Entered step P K s past u)) → ok u e →
      step u e = some u' →
      (I u' ∧ exec step s (past ++ [e]) = some u' ∧
        (A u' → Entered step P K s (past ++ [e]) u')) := by
    intro past u e u' ⟨holds, reached, entered⟩ admissible next
    have last : exec step u [e] = some u' := exec_cons.mpr ⟨u', next, rfl⟩
    refine ⟨preserved u e u' holds admissible next, exec_append.mpr ⟨u, reached, last⟩, ?_⟩
    intro inside
    by_cases before : A u
    · obtain ⟨past', e', after, s₁, s₂, rfl, run₁, entry, met, kept⟩ := entered before
      refine ⟨past', e', after ++ [e], s₁, s₂, by simp, run₁, entry, met, ?_⟩
      exact keeps s₂ u e u' kept holds next before inside
    · exact ⟨past, e, [], u, u', rfl, reached, next,
        enters u e u' holds admissible next before inside, refl u'⟩
  have begun : I s ∧ exec step s [] = some s ∧ (A s → Entered step P K s [] s) :=
    ⟨holds, rfl, fun inside => absurd inside outside⟩
  have history := Along.history stepwise begun along run
  exact history.2.2 inside

/-- The variant rule: a run whose steps all lower a measure is no longer than
the measure it starts with. -/
theorem exec_length_le {step : σ → ε → Option σ} {ok : ε → Prop} {I : σ → Prop}
    {measure : σ → Nat}
    (decreasing : ∀ s e s', I s → ok e → step s e = some s' → I s' ∧ measure s' < measure s)
    {s t : σ} {es : List ε} (holds : I s) (all : ∀ e ∈ es, ok e)
    (run : exec step s es = some t) : es.length ≤ measure s := by
  induction es generalizing s with
  | nil => exact Nat.zero_le _
  | cons e es ih =>
      obtain ⟨first, rest⟩ := List.forall_mem_cons.mp all
      obtain ⟨s', next, run'⟩ := exec_cons.mp run
      obtain ⟨holds', lower⟩ := decreasing s e s' holds first next
      have shorter := ih holds' rest run'
      rw [List.length_cons]
      omega

/-- The variant rule for some of the events: a measure that each of these lowers and no
other raises bounds how many of them an admissible run has. -/
theorem Along.countP_le {step : σ → ε → Option σ} {ok : σ → ε → Prop} {I : σ → Prop}
    {measure : σ → Nat} {p : ε → Bool}
    (lowers : ∀ s e s', I s → ok s e → step s e = some s' →
      I s' ∧ measure s' + (if p e then 1 else 0) ≤ measure s)
    {s t : σ} {es : List ε} (holds : I s) (along : Along step ok s es)
    (run : exec step s es = some t) : es.countP p ≤ measure s := by
  induction es generalizing s with
  | nil => exact Nat.zero_le _
  | cons e es ih =>
      obtain ⟨s', next, rest⟩ := exec_cons.mp run
      obtain ⟨holds', lower⟩ := lowers s e s' holds along.1 next
      have fewer := ih holds' (along.2 s' next) rest
      rw [List.countP_cons]
      omega

/-- The rule of counting: what each event of a kind raises by one and no other event
changes counts the events of that kind. -/
theorem exec_countP {step : σ → ε → Option σ} {count : σ → Nat} {p : ε → Bool}
    (counts : ∀ s e s', step s e = some s' → count s' = count s + (if p e then 1 else 0))
    {s t : σ} {es : List ε} (run : exec step s es = some t) :
    count t = count s + es.countP p := by
  induction es generalizing s with
  | nil => cases run; rfl
  | cons e es ih =>
      obtain ⟨s', next, rest⟩ := exec_cons.mp run
      rw [ih rest, counts s e s' next, List.countP_cons]
      omega

/-- The rule of forward simulation: what another system matches in one
admissible step, it matches along every admissible run. -/
theorem Along.simulated {τ : Type} {step : σ → ε → Option σ} {step' : τ → ε → Option τ}
    {ok : σ → ε → Prop} {R : σ → τ → Prop}
    (matched : ∀ s t e s', R s t → ok s e → step s e = some s' →
      ∃ t', step' t e = some t' ∧ R s' t')
    {s s' : σ} {t : τ} {es : List ε} (related : R s t) (along : Along step ok s es)
    (run : exec step s es = some s') : ∃ t', exec step' t es = some t' ∧ R s' t' := by
  induction es generalizing s t with
  | nil => exact ⟨t, rfl, Option.some.inj run ▸ related⟩
  | cons e es ih =>
      obtain ⟨s₁, first, rest⟩ := exec_cons.mp run
      obtain ⟨t₁, first', related'⟩ := matched s t e s₁ related along.1 first
      obtain ⟨t', rest', final⟩ := ih related' (along.2 s₁ first) rest
      exact ⟨t', exec_cons.mpr ⟨t₁, first', rest'⟩, final⟩

end ActorNet.Lib
