/-!
# Computations over a state that may stop

Where a computation stops, the state is the one it had reached, as an exception
leaves behind what was assigned before it was thrown. `Post r Q E` says what is
known of a result: `Q` where the computation came to its end, `E` where it
stopped. One rule for each way of building a computation.
-/

namespace ActorNet.Lib

/-- A computation over states `σ` that may stop for a reason in `ε`. -/
def Failing (σ ε α : Type) : Type := σ → Except ε α × σ

namespace Failing

variable {σ ε α β : Type}

instance : Monad (Failing σ ε) where
  pure a := fun s => (.ok a, s)
  bind x f := fun s =>
    match x s with
    | (.ok a, s') => f a s'
    | (.error e, s') => (.error e, s')

/-- A part of the state. -/
def gets (f : σ → α) : Failing σ ε α := fun s => (.ok (f s), s)

def modify (f : σ → σ) : Failing σ ε Unit := fun s => (.ok (), f s)

/-- A result that does not depend on the state. -/
def ofExcept (r : Except ε α) : Failing σ ε α := fun s => (r, s)

variable {s : σ}

@[simp] theorem gets_bind {g : σ → α} {f : α → Failing σ ε β} : (gets g >>= f) s = f (g s) s := rfl

@[simp] theorem modify_bind {g : σ → σ} {f : Unit → Failing σ ε β} :
    (modify g >>= f) s = f () (g s) := rfl

@[simp] theorem ok_bind {a : α} {f : α → Failing σ ε β} :
    (ofExcept (.ok a) >>= f) s = f a s := rfl

@[simp] theorem error_bind {e : ε} {f : α → Failing σ ε β} :
    (ofExcept (.error e) >>= f) s = (.error e, s) := rfl

/-- What comes after a stop is not run. -/
theorem bind_stop {x : Failing σ ε α} {f : α → Failing σ ε β} {s' : σ} {e : ε}
    (stops : x s = (.error e, s')) : (x >>= f) s = (.error e, s') := by
  show (match x s with
    | (.ok a, s') => f a s'
    | (.error e, s') => (.error e, s')) = _
  rw [stops]

/-- `Q` of the value and the state at the end, or `E` of the reason and the state
where the computation stopped. -/
def Post (r : Except ε α × σ) (Q : α → σ → Prop) (E : ε → σ → Prop) : Prop :=
  match r with
  | (.ok a, s) => Q a s
  | (.error e, s) => E e s

variable {P Q : α → σ → Prop} {E F : ε → σ → Prop}

theorem Post.pure {a : α} (holds : Q a s) : Post ((Pure.pure a : Failing σ ε α) s) Q E := holds

theorem Post.modify {f : σ → σ} {Q : Unit → σ → Prop} (holds : Q () (f s)) :
    Post ((Failing.modify f : Failing σ ε Unit) s) Q E := holds

/-- The rule of sequential composition. -/
theorem Post.bind {x : Failing σ ε α} {f : α → Failing σ ε β} {R : β → σ → Prop}
    (first : Post (x s) P E) (rest : ∀ a s', P a s' → Post (f a s') R E) :
    Post ((x >>= f) s) R E := by
  show Post (match x s with
    | (.ok a, s') => f a s'
    | (.error e, s') => (.error e, s')) R E
  cases result : x s with
  | mk r s' =>
      rw [result] at first
      cases r with
      | ok a => exact rest a s' first
      | error e => exact first

/-- The rule of consequence. -/
theorem Post.mono {r : Except ε α × σ} (post : Post r P E) (ends : ∀ a s, P a s → Q a s)
    (stops : ∀ e s, E e s → F e s) : Post r Q F := by
  obtain ⟨r, s⟩ := r
  cases r with
  | ok a => exact ends a s post
  | error e => exact stops e s post

/-- What is known of a computation that came to its end. -/
theorem Post.of_ok {r : Except ε α × σ} {a : α} (post : Post r Q E) (is : r = (.ok a, s)) :
    Q a s := by
  subst is
  exact post

/-! ## Invariants -/

/-- `I` survives, whether the computation comes to its end or stops. -/
def Keeps (I : σ → Prop) (x : Failing σ ε α) : Prop :=
  ∀ s, I s → Post (x s) (fun _ => I) (fun _ => I)

variable {I : σ → Prop}

theorem Keeps.pure (a : α) : Keeps I (Pure.pure a : Failing σ ε α) := fun _ holds => holds

theorem Keeps.gets (f : σ → α) : Keeps I (Failing.gets f : Failing σ ε α) := fun _ holds => holds

theorem Keeps.modify {f : σ → σ} (kept : ∀ s, I s → I (f s)) :
    Keeps I (Failing.modify f : Failing σ ε Unit) := kept

theorem Keeps.ofExcept (r : Except ε α) : Keeps I (Failing.ofExcept r : Failing σ ε α) := by
  intro s holds
  cases r <;> exact holds

theorem Keeps.bind {x : Failing σ ε α} {f : α → Failing σ ε β} (first : Keeps I x)
    (rest : ∀ a, Keeps I (f a)) : Keeps I (x >>= f) := by
  intro s holds
  exact Post.bind (first s holds) fun a s' kept => rest a s' kept

theorem Keeps.ite {c : Prop} [Decidable c] {x y : Failing σ ε α} (yes : c → Keeps I x)
    (no : ¬ c → Keeps I y) : Keeps I (if c then x else y) := by
  split
  · exact yes ‹c›
  · exact no ‹¬ c›

end Failing

end ActorNet.Lib
