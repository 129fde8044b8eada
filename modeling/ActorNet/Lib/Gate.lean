/-!
# Gates

A gate counts the operations that are under way. An operation enters before it
starts and leaves when it is done; once the gate is closed nobody enters any
more, and the future of `close` is ready when nobody is inside.
-/

namespace ActorNet.Lib

structure Gate where
  count : Nat
  closed : Bool
  deriving DecidableEq, Repr

namespace Gate

def fresh : Gate := ⟨0, false⟩

/-- `enter`; `none` is `gate_closed_exception`. -/
def enter (g : Gate) : Option Gate := if g.closed then none else some { g with count := g.count + 1 }

def leave (g : Gate) : Gate := { g with count := g.count - 1 }

def close (g : Gate) : Gate := { g with closed := true }

/-- The future of `close` is ready. -/
def Drained (g : Gate) : Prop := g.closed = true ∧ g.count = 0

instance Drained.decidable (g : Gate) : Decidable g.Drained :=
  inferInstanceAs (Decidable (_ ∧ _))

@[simp] theorem leave_count (g : Gate) : g.leave.count = g.count - 1 := rfl
@[simp] theorem leave_closed (g : Gate) : g.leave.closed = g.closed := rfl
@[simp] theorem close_count (g : Gate) : g.close.count = g.count := rfl
@[simp] theorem close_closed (g : Gate) : g.close.closed = true := rfl

/-- Who enters finds the gate open and leaves it so, with one more inside. -/
theorem enter_eq_some {g g' : Gate} :
    g.enter = some g' ↔ g.closed = false ∧ g' = ⟨g.count + 1, false⟩ := by
  cases g with
  | mk count closed =>
      cases closed
      · simp [enter, eq_comm]
      · simp [enter]

theorem enter_eq_none {g : Gate} : g.enter = none ↔ g.closed = true := by
  simp [enter]

end Gate

end ActorNet.Lib
