/-!
# Computations that may stop

A computation stops for a reason: some reasons are allowed (a failed assertion
ends the program), others must not happen. `Guarded.Ensures bad r Q` says that
`r` does not stop for a bad reason and that `Q` holds of its result.
-/

namespace ActorNet.Lib.Guarded

variable {ε α β : Type}

/-- No bad stop, and the result meets `Q`. -/
def Ensures (bad : ε → Prop) (r : Except ε α) (Q : α → Prop) : Prop :=
  match r with
  | .ok a => Q a
  | .error e => ¬ bad e

variable {bad : ε → Prop}

/-- The rule of sequential composition. -/
theorem Ensures.bind {r : Except ε α} {f : α → Except ε β} {P : α → Prop} {Q : β → Prop}
    (first : Ensures bad r P) (rest : ∀ a, P a → Ensures bad (f a) Q) :
    Ensures bad (r >>= f) Q := by
  cases r with
  | ok a => exact rest a first
  | error e => exact first

/-- The rule of consequence. -/
theorem Ensures.mono {r : Except ε α} {P Q : α → Prop} (holds : Ensures bad r P)
    (weaker : ∀ a, P a → Q a) : Ensures bad r Q := by
  cases r with
  | ok a => exact weaker a holds
  | error e => exact holds

/-! ## Exactly when a computation completes -/

/-- It completes just if `ok`, and then its result meets `Q`. -/
def CompletesIff (ok : Prop) (r : Except ε α) (Q : α → Prop) : Prop :=
  match r with
  | .ok a => ok ∧ Q a
  | .error _ => ¬ok

namespace CompletesIff

variable {ok ok' : Prop} {r : Except ε α} {P Q : α → Prop}

theorem of_ok {a : α} (true_ : ok) (run : r = .ok a) (holds : Q a) : CompletesIff ok r Q := by
  rw [run]
  exact ⟨true_, holds⟩

theorem of_error {e : ε} (false_ : ¬ok) (run : r = .error e) : CompletesIff ok r Q := by
  rw [run]
  exact false_

theorem iff (completes : CompletesIff ok r Q) : (∃ a, r = .ok a) ↔ ok := by
  cases r with
  | ok a => exact ⟨fun _ => completes.1, fun _ => ⟨a, rfl⟩⟩
  | error e => exact ⟨fun ⟨_, bad⟩ => (nomatch bad), fun true_ => absurd true_ completes⟩

theorem result (completes : CompletesIff ok r Q) {a : α} (run : r = .ok a) : Q a := by
  rw [run] at completes
  exact completes.2

/-- Both parts of a sequence have to complete. -/
theorem bind {f : α → Except ε β} {Q : β → Prop} (first : CompletesIff ok r P)
    (rest : ∀ a, P a → CompletesIff ok' (f a) Q) : CompletesIff (ok ∧ ok') (r >>= f) Q := by
  cases r with
  | error e => exact fun both => first both.1
  | ok a =>
      have second := rest a first.2
      show CompletesIff (ok ∧ ok') (f a) Q
      cases run : f a with
      | error e => exact fun both => (run ▸ second : CompletesIff ok' (.error e) Q) both.2
      | ok b =>
          have second : ok' ∧ Q b := (run ▸ second : CompletesIff ok' (.ok b) Q)
          exact ⟨⟨first.1, second.1⟩, second.2⟩

/-- The second part always completes. -/
theorem bind_ok {f : α → Except ε β} {Q : β → Prop} (first : CompletesIff ok r P)
    (rest : ∀ a, P a → ∃ b, f a = .ok b ∧ Q b) : CompletesIff ok (r >>= f) Q := by
  cases r with
  | error e => exact first
  | ok a =>
      obtain ⟨b, run, holds⟩ := rest a first.2
      exact of_ok first.1 run holds

theorem map {f : α → β} {Q : β → Prop} (first : CompletesIff ok r P)
    (result : ok → ∀ a, P a → Q (f a)) : CompletesIff ok (r.map f) Q := by
  cases r with
  | error e => exact first
  | ok a => exact ⟨first.1, result first.1 a first.2⟩

theorem congr (completes : CompletesIff ok r P) (same : ok ↔ ok') : CompletesIff ok' r P := by
  cases r with
  | error e => exact fun true_ => completes (same.mpr true_)
  | ok a => exact ⟨same.mp completes.1, completes.2⟩

end CompletesIff

end ActorNet.Lib.Guarded
