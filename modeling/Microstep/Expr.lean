import Microstep.Operator

/-!
# Operands and expressions

An operand is a literal word or the name of a register.  What names a register is left open: in a
machine registers are named by the variables of its author, in a program by whatever the lowering
was told to call them.  An expression is a tree of binary operators over operands that are named
by variables.

* `Operand`, `Operand.map` — operands, and renaming their registers;
* `Expr` — expressions; `Expr.leaves` — their operands from left to right.
-/

namespace Microstep

/-- A literal or a register. -/
inductive Operand (ρ : Type) where
  | literal (value : Int64)
  | name (register : ρ)
  deriving DecidableEq, Repr

namespace Operand

variable {ρ σ : Type}

/-- Renames the register of an operand. -/
def map (f : ρ → σ) : Operand ρ → Operand σ
  | .literal v => .literal v
  | .name r => .name (f r)

/-- Whether the operand is a literal. -/
def isLiteral : Operand ρ → Bool
  | .literal _ => true
  | .name _ => false

/-- Whether the operand is a register. -/
def isName : Operand ρ → Bool
  | .literal _ => false
  | .name _ => true

/-- The register of an operand. -/
def name? : Operand ρ → Option ρ
  | .literal _ => none
  | .name r => some r

/-- The operand as it is shown: a literal by its digits, a register by its name. -/
def display : Operand String → String
  | .literal v => toString v.toInt
  | .name r => r

/-- Whether the operand is a variable without a name. -/
def isNameless : Operand String → Bool
  | .literal _ => false
  | .name r => r == ""

end Operand

/-- An expression over variables. -/
inductive Expr where
  | leaf (operand : Operand String)
  | node (left : Expr) (op : Operator) (right : Expr)
  deriving DecidableEq, Repr

namespace Expr

/-- The operand an expression consists of, if it is a single one. -/
def leaf? : Expr → Option (Operand String)
  | .leaf o => some o
  | .node _ _ _ => none

/-- Whether the expression is a single operand. -/
def isLeaf (e : Expr) : Bool := e.leaf?.isSome

/-- The operands of an expression from left to right. -/
def leaves : Expr → List (Operand String)
  | .leaf o => [o]
  | .node l _ r => l.leaves ++ r.leaves

/-- The expression as it is shown, every operation in parentheses. -/
def display : Expr → String
  | .leaf o => o.display
  | .node l op r => "(" ++ l.display ++ " " ++ op.symbol ++ " " ++ r.display ++ ")"

end Expr

end Microstep
