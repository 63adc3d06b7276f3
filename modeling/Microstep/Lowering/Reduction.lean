import Microstep.Program
import Microstep.Register.Scheme

/-!
# Reducing expressions

An expression is reduced to a single operand by computing its operations one at a time, operands
first, from left to right.  The value of an operation goes into a temp.  A temp that holds an
operand of the operation is free again once the operation is computed, so it takes the result: the
left operand's if there is one, otherwise the right operand's, and only if there is neither a
fresh one.  Which temps are used depends on the shape of the expression alone.

* `Reduced` — what an expression has become;
* `Reduction` — the computes of an expression, what it has become, and the temps issued;
* `Reduction.fresh` — the next temp;
* `Reduction.combine` — an operation on two reduced operands;
* `Expr.reduce` — the reduction of an expression.
-/

namespace Microstep

/-- What an expression has become: one of its own operands, or a temp. -/
inductive Reduced (ρ : Type) where
  | leaf (operand : Operand ρ)
  | temp (index : Nat)
  deriving DecidableEq, Repr

namespace Reduced

variable {ρ : Type}

/-- The operand to read the value from. -/
def operand (scheme : RegisterScheme ρ) : Reduced ρ → Operand ρ
  | .leaf o => o
  | .temp n => .name (scheme.temp n)

/-- The temp that holds the value. -/
def temp? : Reduced ρ → Option Nat
  | .leaf _ => none
  | .temp n => some n

end Reduced

/-- The reduction of an expression. -/
structure Reduction (ρ : Type) where
  /-- What is computed, in order. -/
  computes : List (Compute ρ)
  /-- Where the value is afterwards. -/
  result : Reduced ρ
  /-- How many temps have been issued in all. -/
  issued : Nat
  deriving Repr

namespace Reduction

variable {ρ : Type}

/-- The reduction of an operation, with its own compute told apart. -/
structure OfNode (ρ : Type) where
  /-- The computes of the operands. -/
  before : List (Compute ρ)
  /-- The compute of the operation. -/
  compute : Compute ρ
  /-- The temp that holds the value. -/
  out : Nat
  /-- How many temps have been issued in all. -/
  issued : Nat
  deriving Repr

/-- Issues a temp: which one it is, and the number of temps issued with it. -/
def fresh (issued : Nat) : Nat × Nat := (issued, issued + 1)

/-- The temp for the value of an operation, and the number of temps issued with it. -/
def target (left right : Reduced ρ) (issued : Nat) : Nat × Nat :=
  match left.temp?, right.temp? with
  | some n, _ => (n, issued)
  | none, some n => (n, issued)
  | none, none => fresh issued

/-- **An operation on reduced operands**, the right one reduced after the left one.  A comparison
with a literal is marked as one that does not take its count from the input. -/
def combine (scheme : RegisterScheme ρ) (op : Operator) (left right : Reduction ρ) : OfNode ρ :=
  let (out, issued) := target left.result right.result right.issued
  let rightOperand := right.result.operand scheme
  { before := left.computes ++ right.computes
    compute :=
      { left := left.result.operand scheme
        right := rightOperand
        operator := op
        countFromInput :=
          if op.isComparison && rightOperand.isLiteral then some false else none
        out := scheme.temp out }
    out, issued }

/-- The reduction of an operation as that of an expression. -/
def OfNode.toReduction (n : OfNode ρ) : Reduction ρ :=
  { computes := n.before ++ [n.compute], result := .temp n.out, issued := n.issued }

end Reduction

/-- **The reduction of an expression**, when `issued` temps are in use already.  Variables are read
from the registers that `read` names. -/
def Expr.reduce {ρ : Type} (scheme : RegisterScheme ρ) (read : String → ρ) (issued : Nat) :
    Expr → Reduction ρ
  | .leaf o => { computes := [], result := .leaf (o.map read), issued }
  | .node l op r =>
    let left := l.reduce scheme read issued
    let right := r.reduce scheme read left.issued
    (Reduction.combine scheme op left right).toReduction

end Microstep
