/-!
# Operators

An operator is known by its symbol.  Thirteen symbols have a meaning to the lowering; any other
symbol is carried along as it is.  The double equality sign is a second spelling of the single
one.

* `Operator` — the operators; `Operator.symbol`, `Operator.ofSymbol` — to and from symbols;
* `Operator.IsCanonical` — an operator that its own symbol stands for;
* `Operator.isComparison` — the six comparisons.
-/

namespace Microstep

/-- A binary operator. -/
inductive Operator where
  | add
  | sub
  | mul
  | div
  | rem
  | eq
  | ne
  | lt
  | le
  | gt
  | ge
  | and
  | or
  /-- An operator without a meaning of its own. -/
  | other (symbol : String)
  deriving DecidableEq, Repr

namespace Operator

/-- The symbol of an operator. -/
def symbol : Operator → String
  | .add => "+"
  | .sub => "-"
  | .mul => "*"
  | .div => "/"
  | .rem => "%"
  | .eq => "="
  | .ne => "!="
  | .lt => "<"
  | .le => "<="
  | .gt => ">"
  | .ge => ">="
  | .and => "&"
  | .or => "|"
  | .other s => s

/-- The operator that a symbol stands for. -/
def ofSymbol : String → Operator
  | "+" => .add
  | "-" => .sub
  | "*" => .mul
  | "/" => .div
  | "%" => .rem
  | "=" => .eq
  | "==" => .eq
  | "!=" => .ne
  | "<" => .lt
  | "<=" => .le
  | ">" => .gt
  | ">=" => .ge
  | "&" => .and
  | "|" => .or
  | s => .other s

/-- **Canonical operators.**  An operator that is the one its symbol stands for.  Only an `other`
that borrows a symbol with a meaning, or the second equality sign, is not. -/
def IsCanonical (op : Operator) : Prop := ofSymbol op.symbol = op

instance (op : Operator) : Decidable op.IsCanonical := inferInstanceAs (Decidable (_ = _))

/-- What a symbol stands for is canonical. -/
theorem isCanonical_ofSymbol (s : String) : (ofSymbol s).IsCanonical := by
  unfold ofSymbol
  split
  case h_15 => simp_all [IsCanonical, symbol, ofSymbol]
  all_goals rfl

/-- Whether the operator has no meaning of its own. -/
def isOther : Operator → Bool
  | .other _ => true
  | _ => false

/-- Whether the operator compares its operands. -/
def isComparison : Operator → Bool
  | .eq | .ne | .lt | .le | .gt | .ge => true
  | _ => false

end Operator

end Microstep
