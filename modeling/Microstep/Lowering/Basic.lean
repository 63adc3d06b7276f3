import Microstep.Lowering.Body
import Microstep.Lowering.Placement

/-!
# Lowering machines

A machine is lowered in three passes.  Every state is compiled to bodies; the states are placed;
and the bodies of every state are laid out from its address, with the targets of their branches
looked up among the placed states.  The first error of the earliest pass counts.

* `Compiled` — a state with its bodies;
* `Compiled.place` — its blocks at an address;
* `Machine.lower` — the lowered machine.
-/

namespace Microstep

variable {ρ τ : Type}

/-- A state that has been compiled. -/
structure Compiled (ρ : Type) where
  id : StateId
  bodies : List (Body ρ)

namespace Compiled

/-- How many addresses the bodies take up. -/
def width (c : Compiled ρ) : Nat := c.bodies.flatten.length

/-- What matters of a compiled state when it is placed. -/
def extent (c : Compiled ρ) : Extent := { id := c.id, width := c.width }

/-- The address of the state that `label` names; `state` is where the name stands. -/
def resolve (places : List (StateId × Address)) (state label : StateId) :
    Except LowerError Address :=
  match places.lookup label with
  | some a => .ok a
  | none => .error (.unresolvedLabel label state)

/-- Lays out bodies one after the other. -/
def placeBlocks (resolve : StateId → Except LowerError Address) (start : Address) :
    List (Body ρ) → Except LowerError (List (Block ρ))
  | [] => .ok []
  | body :: rest => do
    let steps ← body.mapM (OpStep.mapLabels resolve)
    return { start, steps } :: (← placeBlocks resolve (start.advance body.length) rest)

/-- The blocks of a compiled state at an address. -/
def place (places : List (StateId × Address)) (c : Compiled ρ) (address : Address) :
    Except LowerError (ProgramState ρ) := do
  return { address, blocks := ← placeBlocks (resolve places c.id) address c.bodies }

end Compiled

/-- Compiles a state; it may not be wider than the address space. -/
def State.compile (scheme : RegisterScheme ρ) (s : State) : Except LowerError (Compiled ρ) :=
  match s.bodies scheme with
  | .error cause => .error (.malformedExpression s.id cause)
  | .ok bodies =>
    let compiled : Compiled ρ := { id := s.id, bodies }
    if compiled.width < UInt32.size then .ok compiled else .error (.addressOverflow s.id)

/-- **The lowered machine.** -/
def Machine.lower (scheme : RegisterScheme ρ) (m : Machine τ) :
    Except LowerError (Program ρ τ) := do
  let compiled ← m.states.mapM (State.compile scheme)
  let extents := compiled.map Compiled.extent
  let addresses ← Placement.assign extents
  Footprint.checkDisjoint (← Footprint.ofExtents extents addresses)
  let places := (compiled.map Compiled.id).zip addresses
  let states ← (compiled.zip addresses).mapM fun (c, address) => c.place places address
  return { timers := m.timers, states }

end Microstep
