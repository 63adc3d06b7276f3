import Microstep.Lowering.Error

/-!
# Checking machines

Everything that is structurally wrong with a machine, found without lowering it: ids declared
twice, malformed expressions, and jumps to states that are not there.  Lowering stops at the first
of these; the check goes on to the end.  Collisions and overflows of addresses are not looked for.

* `Statement.malformations`, `Transition.malformations` — of a statement, of a transition;
* `Machine.check` — all errors, in order.
-/

namespace Microstep

/-- A malformation for an operand without a name. -/
def Operand.malformations (o : Operand String) : List Malformation :=
  if o.isNameless then [.emptyName] else []

/-- What is malformed in a statement: its counter, then its amount. -/
def Statement.malformations (s : Statement) : List Malformation :=
  (if s.out = "" then [.emptyName] else [])
    ++ match s.amount with
      | .leaf o => o.malformations
      | .node _ _ _ => [.compoundIncrement s.out none]

/-- What is malformed in the condition of a transition. -/
def Transition.malformations (t : Transition) : List Malformation :=
  match t.condition with
  | none => []
  | some c => c.leaves.flatMap Operand.malformations

/-- What is wrong with a transition of a state, if `declared` are the ids there are. -/
def Transition.errors (declared : List StateId) (state : StateId) (t : Transition) :
    List LowerError :=
  t.malformations.map (.malformedExpression state)
    ++ if t.target ∈ declared then [] else [.unresolvedLabel t.target state]

/-- What is wrong with a state, if `declared` are the ids there are. -/
def State.errors (declared : List StateId) (s : State) : List LowerError :=
  s.statements.flatMap (fun st => st.malformations.map (.malformedExpression s.id))
    ++ s.transitions.flatMap (Transition.errors declared s.id)

/-- **The structural errors of a machine**: repeated ids first, then state by state. -/
def Machine.check {τ : Type} (m : Machine τ) : List LowerError :=
  let ids := m.states.map State.id
  (StateId.repeats ids).map .duplicateLabel ++ m.states.flatMap (State.errors ids)

end Microstep
