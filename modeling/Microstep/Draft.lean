import Microstep.Machine

/-!
# Drafts

States and machines put together piece by piece.  A draft of a state becomes a state once it has an
id; a draft of a machine becomes a machine once it has a state.

* `StateDraft`, `StateDraft.finish` — states;
* `MachineDraft`, `MachineDraft.addDraft`, `MachineDraft.finish` — machines.
-/

namespace Microstep

/-- What a draft lacks. -/
inductive DraftError where
  | missingStateId
  | noStates
  deriving DecidableEq, Repr

/-- The text of a draft error. -/
def DraftError.message : DraftError → String
  | .missingStateId => "State id not specified. Call .id(label) before .build()"
  | .noStates => "No states defined. Add at least one state"

/-- A state in the making. -/
structure StateDraft where
  id : Option StateId
  statements : List Statement
  transitions : List Transition
  deriving DecidableEq, Repr

namespace StateDraft

/-- A draft with nothing in it. -/
def empty : StateDraft := { id := none, statements := [], transitions := [] }

/-- Gives the state an id, in place of one it has. -/
def withId (d : StateDraft) (id : StateId) : StateDraft := { d with id := some id }

/-- Adds a statement. -/
def addStatement (d : StateDraft) (s : Statement) : StateDraft :=
  { d with statements := d.statements ++ [s] }

/-- Adds a transition. -/
def addTransition (d : StateDraft) (t : Transition) : StateDraft :=
  { d with transitions := d.transitions ++ [t] }

/-- The state that has been drafted. -/
def finish (d : StateDraft) : Except DraftError State :=
  match d.id with
  | none => .error .missingStateId
  | some id => .ok { id, statements := d.statements, transitions := d.transitions }

end StateDraft

/-- A machine in the making. -/
structure MachineDraft (τ : Type) where
  timers : List τ
  states : List State
  deriving DecidableEq, Repr

namespace MachineDraft

variable {τ : Type}

/-- A draft with nothing in it. -/
def empty : MachineDraft τ := { timers := [], states := [] }

/-- Adds a timer. -/
def addTimer (d : MachineDraft τ) (t : τ) : MachineDraft τ := { d with timers := d.timers ++ [t] }

/-- Adds states. -/
def addStates (d : MachineDraft τ) (ss : List State) : MachineDraft τ :=
  { d with states := d.states ++ ss }

/-- Adds a state. -/
def addState (d : MachineDraft τ) (s : State) : MachineDraft τ := d.addStates [s]

/-- Adds a drafted state, if it is complete. -/
def addDraft (d : MachineDraft τ) (s : StateDraft) : Except DraftError (MachineDraft τ) := do
  return d.addState (← s.finish)

/-- The machine that has been drafted. -/
def finish (d : MachineDraft τ) : Except DraftError (Machine τ) :=
  if d.states.isEmpty then .error .noStates
  else .ok { timers := d.timers, states := d.states }

end MachineDraft

end Microstep
