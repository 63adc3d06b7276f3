import Microstep.Machine

/-!
# Lowering errors

Why a machine cannot be lowered, as causes; their wording is in `LowerError.message`.
-/

namespace Microstep

/-- What is wrong with an expression of a machine. -/
inductive Malformation where
  /-- A variable has no name. -/
  | emptyName
  /-- A counter is raised by something other than a variable or a literal; `found` is what it is,
  where that is told. -/
  | compoundIncrement (counter : String) (found : Option Expr)
  deriving DecidableEq, Repr

/-- The text of a malformation. -/
def Malformation.reason : Malformation → String
  | .emptyName => "empty variable name"
  | .compoundIncrement counter found =>
    "increment of `" ++ counter ++ "` must be a variable or literal"
      ++ match found with
        | none => ""
        | some e => ", found " ++ e.display

/-- Why a machine cannot be lowered. -/
inductive LowerError where
  /-- A state jumps to an id that no state has. -/
  | unresolvedLabel (label state : StateId)
  | malformedExpression (state : StateId) (cause : Malformation)
  /-- Two states take up the same address. -/
  | addressCollision (first second : StateId) (address : Address)
  /-- Two states have the same id. -/
  | duplicateLabel (label : StateId)
  /-- A state does not fit into the addresses. -/
  | addressOverflow (state : StateId)
  deriving DecidableEq, Repr

/-- The text of a lowering error. -/
def LowerError.message : LowerError → String
  | .unresolvedLabel label state =>
    "State " ++ state.display ++ " jumps to " ++ label.display
      ++ ", which is not a state of this machine"
  | .malformedExpression state cause =>
    "Malformed expression in state " ++ state.display ++ ": " ++ cause.reason
  | .addressCollision first second address =>
    "States " ++ first.display ++ " and " ++ second.display ++ " overlap at address "
      ++ toString address.toNat
  | .duplicateLabel label => "State id " ++ label.display ++ " is declared more than once"
  | .addressOverflow state =>
    "Addresses of state " ++ state.display ++ " exceed the address space"

end Microstep
