import Microstep.Lowering.Error
import Microstep.Lowering.Reduction

/-!
# Bodies of blocks

The op-steps of the statements and transitions of a state, before they are placed.

A statement opens the guard and multiplies it with the amount into the signal of its counter; from
then on the state reads that counter from its signal.  A transition gates its condition with the
guard into a temp and branches on that temp; without a condition it branches on the guard itself.
The guard is opened as late as possible: together with the outermost operation of a compound
condition.

* `Body` — op-steps whose branches still name states;
* `Statement.body`, `Transition.body` — one block;
* `State.bodies` — the blocks of a state, and the first malformation of one that has no blocks.
-/

namespace Microstep

/-- Op-steps whose branches name states. -/
abbrev Body (ρ : Type) := List (OpStep ρ StateId)

variable {ρ : Type}

/-- The body of a statement, after the counters `raised` have been raised. -/
def Statement.body (scheme : RegisterScheme ρ) (raised : List String) (s : Statement) :
    Except Malformation (Body ρ) :=
  if s.out = "" then .error .emptyName
  else match s.amount with
    | .node l op r => .error (.compoundIncrement s.out (some (.node l op r)))
    | .leaf o =>
      if o.isNameless then .error .emptyName
      else
        .ok
          [ [.openGuard],
            [.compute
              { left := .name scheme.guard
                right := o.map (scheme.read raised)
                operator := .mul
                countFromInput := none
                out := scheme.signal s.out }] ]

/-- The bodies of statements in order, each of which raises its counter for those after it. -/
def Statement.bodies (scheme : RegisterScheme ρ) (raised : List String) :
    List Statement → Except Malformation (List (Body ρ))
  | [] => .ok []
  | s :: rest => do
    let body ← s.body scheme raised
    return body :: (← Statement.bodies scheme (s.out :: raised) rest)

namespace Transition

/-- Multiplies a value with the guard into a temp and branches on it. -/
def gated (scheme : RegisterScheme ρ) (value : Operand ρ) (temp : Nat) (target : StateId) :
    Body ρ :=
  [ [.compute
      { left := value
        right := .name scheme.guard
        operator := .mul
        countFromInput := none
        out := scheme.temp temp }],
    [.branch (scheme.temp temp) target] ]

/-- The body of a jump to `target` under a condition; the state reads from the signals of the
counters `raised`. -/
def conditional (scheme : RegisterScheme ρ) (raised : List String) (target : StateId) :
    Expr → Body ρ
  | .leaf o =>
    [.openGuard] :: gated scheme (o.map (scheme.read raised)) (Reduction.fresh 0).1 target
  | .node l op r =>
    let left := l.reduce scheme (scheme.read raised) 0
    let right := r.reduce scheme (scheme.read raised) left.issued
    let node := Reduction.combine scheme op left right
    node.before.map (fun c => [.compute c])
      ++ [.compute node.compute, .openGuard]
        :: gated scheme (.name (scheme.temp node.out)) node.out target

/-- The body of a transition. -/
def body (scheme : RegisterScheme ρ) (raised : List String) (t : Transition) :
    Except Malformation (Body ρ) :=
  match t.condition with
  | none => .ok [[.openGuard], [.branch scheme.guard t.target]]
  | some c =>
    if c.leaves.any Operand.isNameless then .error .emptyName
    else .ok (conditional scheme raised t.target c)

end Transition

namespace State

/-- The bodies of the statements and then of the transitions of a state. -/
def bodies (scheme : RegisterScheme ρ) (s : State) : Except Malformation (List (Body ρ)) := do
  let statements ← Statement.bodies scheme [] s.statements
  let transitions ← s.transitions.mapM (Transition.body scheme (s.statements.map Statement.out))
  return statements ++ transitions

end State

end Microstep
