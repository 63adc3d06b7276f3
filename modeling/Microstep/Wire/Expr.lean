import Microstep.Expr
import Microstep.Json.Record

/-!
# Expressions on the wire

An operand is a JSON integer or a JSON string, and so is an expression that consists of one.  An
operation is an object with the members `left`, `right` and `operator`; it has no array form.

* `Operator.read`, `Operand.read`, `Expr.read` — reading;
* `Operator.toJson`, `Operand.toJson`, `Expr.toJson` — writing.
-/

namespace Microstep

open Json (Reader Shape)

namespace Operator

/-- Reads an operator, by its symbol. -/
def read : Reader Operator := Reader.map ofSymbol Reader.string

/-- The operator as JSON. -/
def toJson (op : Operator) : Json := .str op.symbol

end Operator

namespace Operand

/-- Reads an operand: a literal or the name of a register. -/
def read : Reader (Operand String) :=
  Reader.choice "Operand" [Reader.map .literal Reader.int64, Reader.map .name Reader.string]

/-- The operand as JSON. -/
def toJson : Operand String → Json
  | .literal v => .int64 v
  | .name r => .str r

end Operand

namespace Expr

/-- The fields of an operation. -/
inductive Field where
  | left
  | right
  | operator
  deriving DecidableEq, Repr

/-- The written form of an operation whose operands are read by `operand`. -/
def shape (operand : Reader Expr) : Shape Field where
  Value
    | .left | .right => Expr
    | .operator => Operator
  fields := [.left, .right, .operator]
  key
    | .left => "left"
    | .right => "right"
    | .operator => "operator"
  read
    | .left | .right => operand
    | .operator => Operator.read
  closed := false

/-- Reads an operation whose operands are read by `operand`. -/
def readNode (operand : Reader Expr) : Reader Expr :=
  (shape operand).object fun absent slots => do
    let left ← slots.require absent .left
    let right ← slots.require absent .right
    let op ← slots.require absent .operator
    return .node left op right

/-- **Reads an expression**: an operand, or an operation while levels are left. -/
def read : Reader Expr
  | 0, t => Reader.choice "Expr" [Reader.map .leaf Operand.read] 0 t
  | d + 1, t =>
    Reader.choice "Expr" [Reader.map .leaf Operand.read, readNode fun _ => Expr.read d] (d + 1) t

/-- The expression as JSON. -/
def toJson : Expr → Json
  | .leaf o => o.toJson
  | .node l op r => .obj [("left", l.toJson), ("right", r.toJson), ("operator", op.toJson)]

end Expr

end Microstep
