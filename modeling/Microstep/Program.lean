import Microstep.Machine

/-!
# Programs

What a machine is lowered to.  A program has one state for each state of the machine, at an
address; a program state is a run of blocks, one for each statement and each transition; a block
is a list of op-steps, which lie at consecutive addresses from its start.  An op-step is a list of
micro-ops that happen one after the other at one address: opening the guard, computing a value
into a register, and branching on a register.

Registers are of a type `ρ` and branch targets of a type `κ`: state ids while a program is put
together, addresses when it is done.

* `Compute`, `MicroOp`, `OpStep`, `Block`, `ProgramState`, `Program` — the parts of a program;
* `OpStep.mapLabels` — an op-step with other branch targets;
* `Block.width`, `ProgramState.width` — how many addresses they take up.
-/

namespace Microstep

/-- Computes a value into a register. -/
structure Compute (ρ : Type) where
  left : Operand ρ
  right : Operand ρ
  operator : Operator
  /-- Whether the count is taken from the input, where that is said at all. -/
  countFromInput : Option Bool
  out : ρ
  deriving DecidableEq, Repr

/-- One action of an op-step. -/
inductive MicroOp (ρ κ : Type) where
  /-- Sets the guard. -/
  | openGuard
  | compute (c : Compute ρ)
  /-- Goes to `target` unless `register` is zero. -/
  | branch (register : ρ) (target : κ)
  deriving DecidableEq, Repr

/-- The actions at one address, in order. -/
abbrev OpStep (ρ κ : Type) := List (MicroOp ρ κ)

/-- Op-steps at consecutive addresses. -/
structure Block (ρ : Type) where
  start : Address
  steps : List (OpStep ρ Address)
  deriving DecidableEq, Repr

/-- The blocks of one state. -/
structure ProgramState (ρ : Type) where
  address : Address
  blocks : List (Block ρ)
  deriving DecidableEq, Repr

/-- A lowered machine. -/
structure Program (ρ τ : Type) where
  timers : List τ
  states : List (ProgramState ρ)
  deriving DecidableEq, Repr

section

variable {ρ κ κ' : Type} {m : Type → Type} [Monad m]

/-- A micro-op with the target of its branch replaced by what `f` makes of it. -/
def MicroOp.mapLabel (f : κ → m κ') : MicroOp ρ κ → m (MicroOp ρ κ')
  | .openGuard => pure .openGuard
  | .compute c => pure (.compute c)
  | .branch r target => do return .branch r (← f target)

/-- An op-step with its branch targets replaced by what `f` makes of them, from left to right. -/
def OpStep.mapLabels (f : κ → m κ') (step : OpStep ρ κ) : m (OpStep ρ κ') :=
  step.mapM (MicroOp.mapLabel f)

@[simp] theorem OpStep.mapLabels_nil (f : κ → m κ') :
    OpStep.mapLabels f ([] : OpStep ρ κ) = pure [] := by
  simp [OpStep.mapLabels]

@[simp] theorem OpStep.mapLabels_cons [LawfulMonad m] (f : κ → m κ') (op : MicroOp ρ κ)
    (step : OpStep ρ κ) :
    OpStep.mapLabels f (op :: step)
      = do return (← op.mapLabel f) :: (← OpStep.mapLabels f step) := by
  simp [OpStep.mapLabels]

end

/-- How many addresses a block takes up. -/
def Block.width {ρ : Type} (b : Block ρ) : Nat := b.steps.length

/-- How many addresses the blocks of a state take up. -/
def ProgramState.width {ρ : Type} (s : ProgramState ρ) : Nat :=
  (s.blocks.flatMap Block.steps).length

end Microstep
