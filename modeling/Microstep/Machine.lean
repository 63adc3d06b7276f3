import Microstep.Expr

/-!
# Machines

A machine is a list of states.  A state first runs its statements, each of which raises a counter
by an amount, and then tries its transitions in order; a transition without a condition is always
taken.  States are known by ids: a numeric id also fixes the address of the state, a symbolic one
leaves it open.  Timers belong to the machine and mean nothing here.

* `Address`, `Address.advance` — addresses, and moving on from one;
* `StateId`, `Statement`, `Transition`, `State`, `Machine` — the parts of a machine;
* `StateId.repeats` — the ids that a list of ids holds more than once.
-/

namespace Microstep

/-- A place in the memory of a program. -/
abbrev Address := UInt32

/-- The address `width` further on, where the width is a word too; past the last address it is the
last address. -/
def Address.advance (a : Address) (width : Nat) : Address :=
  UInt32.ofNat (min (a.toNat + (UInt32.ofNat width).toNat) (UInt32.size - 1))

/-- The id of a state. -/
inductive StateId where
  /-- An id that is also the address of the state. -/
  | numeric (address : Address)
  | symbolic (label : String)
  deriving DecidableEq, Repr

namespace StateId

/-- Whether the id fixes an address. -/
def isNumeric : StateId → Bool
  | .numeric _ => true
  | .symbolic _ => false

/-- The address that the id fixes. -/
def address? : StateId → Option Address
  | .numeric a => some a
  | .symbolic _ => none

/-- The id as it is shown, a symbolic one in quotes. -/
def display : StateId → String
  | .numeric a => toString a.toNat
  | .symbolic l => "\"" ++ l ++ "\""

/-- The ids met again after `seen`, each as often as it is met again. -/
def repeatsAfter (seen : List StateId) : List StateId → List StateId
  | [] => []
  | id :: ids => if id ∈ seen then id :: repeatsAfter seen ids else repeatsAfter (id :: seen) ids

/-- The ids that stand further up in a list already, in order. -/
def repeats (ids : List StateId) : List StateId := repeatsAfter [] ids

end StateId

/-- A counter raised by an amount. -/
structure Statement where
  /-- The variable on the left of the operator. -/
  left : String
  /-- What the counter is raised by. -/
  amount : Expr
  operator : Operator
  /-- The counter. -/
  out : String
  deriving DecidableEq, Repr

/-- The statement that adds an amount to a counter. -/
def Statement.increment (counter : String) (amount : Expr) : Statement :=
  { left := counter, amount, operator := .add, out := counter }

/-- A jump to another state, taken if the condition holds. -/
structure Transition where
  condition : Option Expr
  target : StateId
  deriving DecidableEq, Repr

/-- A state. -/
structure State where
  id : StateId
  statements : List Statement
  transitions : List Transition
  deriving DecidableEq, Repr

/-- A machine with timers of type `τ`. -/
structure Machine (τ : Type) where
  timers : List τ
  states : List State
  deriving DecidableEq, Repr

end Microstep
