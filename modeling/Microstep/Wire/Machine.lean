import Microstep.Machine
import Microstep.Wire.Expr
import Microstep.Wire.Timer

/-!
# Machines on the wire

The parts of a machine are records.  The lists of a state and the timers of a machine may be left
out, as may the condition of a transition, for which `null` can stand too; a condition that is
absent is not written at all.  How timers are read and written is up to the caller.

* `StateId.read`, `Statement.read`, `Transition.read`, `State.read`, `Machine.read` — reading;
* the `toJson` of each, and `Machine.toJson?` — writing.
-/

namespace Microstep

open Json (Reader Shape)

namespace StateId

/-- Reads a state id: an address or a label. -/
def read : Reader StateId :=
  Reader.choice "StateId" [Reader.map .numeric Reader.uint32, Reader.map .symbolic Reader.string]

/-- The state id as JSON. -/
def toJson : StateId → Json
  | .numeric a => .uint32 a
  | .symbolic l => .str l

end StateId

namespace Statement

/-- The fields of a statement. -/
inductive Field where
  | left
  | amount
  | operator
  | out
  deriving DecidableEq, Repr

/-- The written form of a statement. -/
def shape : Shape Field where
  Value
    | .left | .out => String
    | .amount => Expr
    | .operator => Operator
  fields := [.left, .amount, .operator, .out]
  key
    | .left => "left"
    | .amount => "right"
    | .operator => "operator"
    | .out => "out"
  read
    | .left | .out => Reader.string
    | .amount => Expr.read
    | .operator => Operator.read
  closed := false

/-- Reads a statement. -/
def read : Reader Statement :=
  shape.record fun absent slots => do
    let left ← slots.require absent .left
    let amount ← slots.require absent .amount
    let operator ← slots.require absent .operator
    let out ← slots.require absent .out
    return { left, amount, operator, out }

/-- The statement as JSON. -/
def toJson (s : Statement) : Json :=
  .obj
    [ ("left", .str s.left),
      ("right", s.amount.toJson),
      ("operator", s.operator.toJson),
      ("out", .str s.out) ]

end Statement

namespace Transition

/-- The fields of a transition. -/
inductive Field where
  | condition
  | target
  deriving DecidableEq, Repr

/-- The written form of a transition. -/
def shape : Shape Field where
  Value
    | .condition => Option Expr
    | .target => StateId
  fields := [.condition, .target]
  key
    | .condition => "condition"
    | .target => "goto"
  read
    | .condition => Reader.optional Expr.read
    | .target => StateId.read
  closed := false

/-- Reads a transition. -/
def read : Reader Transition :=
  shape.record fun absent slots => do
    let target ← slots.require absent .target
    return { condition := (slots .condition).getD none, target }

/-- The transition as JSON. -/
def toJson (t : Transition) : Json :=
  .obj
    ((match t.condition with
      | none => []
      | some c => [("condition", c.toJson)])
      ++ [("goto", t.target.toJson)])

end Transition

namespace State

/-- The fields of a state. -/
inductive Field where
  | id
  | statements
  | transitions
  deriving DecidableEq, Repr

/-- The written form of a state. -/
def shape : Shape Field where
  Value
    | .id => StateId
    | .statements => List Statement
    | .transitions => List Transition
  fields := [.id, .statements, .transitions]
  key
    | .id => "state"
    | .statements => "statements"
    | .transitions => "transitions"
  read
    | .id => StateId.read
    | .statements => Reader.list Statement.read
    | .transitions => Reader.list Transition.read
  closed := false

/-- Reads a state. -/
def read : Reader State :=
  shape.record fun absent slots => do
    let id ← slots.require absent .id
    let statements := (slots .statements).getD []
    let transitions := (slots .transitions).getD []
    return { id, statements, transitions }

/-- The state as JSON. -/
def toJson (s : State) : Json :=
  .obj
    [ ("state", s.id.toJson),
      ("statements", .arr (s.statements.map Statement.toJson)),
      ("transitions", .arr (s.transitions.map Transition.toJson)) ]

end State

namespace Machine

variable {τ : Type}

/-- Reads a machine, its timers by `timer`. -/
def read (timer : Reader τ) : Reader (Machine τ) := Timed.read timer State.read Machine.mk

/-- The machine as JSON, if its timers are JSON. -/
def toJson? (timer : τ → Option Json) (m : Machine τ) : Option Json :=
  Timed.toJson? timer State.toJson m.timers m.states

end Machine

end Microstep
