import Microstep.Program
import Microstep.Wire.Machine

/-!
# Programs on the wire

The parts of a program are records too, except that an op-step is the bare list of its micro-ops.
The three micro-ops know their own fields only, so that they can be told apart by them: an unknown
member is a fault.

* `GuardOpening.read`, `Compute.read`, `Branch.read`, `MicroOp.read` — reading micro-ops;
* `OpStep.read`, `Block.read`, `ProgramState.read`, `Program.read` — reading the rest;
* the `toJson` of each, and `Program.toJson?` — writing.
-/

namespace Microstep

open Json (Reader Shape)

/-! ## Micro-ops -/

namespace GuardOpening

/-- The fields of the opening of a guard. -/
inductive Field where
  | guard
  deriving DecidableEq, Repr

/-- The written form of the opening of a guard. -/
def shape : Shape Field where
  Value
    | .guard => Bool
  fields := [.guard]
  key
    | .guard => "guard"
  read
    | .guard => Reader.bool
  closed := true

/-- Reads the opening of a guard, which must say `true`. -/
def read : Reader Unit :=
  shape.record fun absent slots => do
    let guard : Bool ← slots.require absent .guard
    if guard then .ok () else .error .guardNotTrue

/-- The opening of a guard as JSON. -/
def toJson : Json := .obj [("guard", .bool true)]

end GuardOpening

namespace Compute

/-- The fields of a compute. -/
inductive Field where
  | left
  | right
  | operator
  | countFromInput
  | out
  deriving DecidableEq, Repr

/-- The written form of a compute. -/
def shape : Shape Field where
  Value
    | .left | .right => Operand String
    | .operator => Operator
    | .countFromInput => Option Bool
    | .out => String
  fields := [.left, .right, .operator, .countFromInput, .out]
  key
    | .left => "left"
    | .right => "right"
    | .operator => "operator"
    | .countFromInput => "countFromInput"
    | .out => "out"
  read
    | .left | .right => Operand.read
    | .operator => Operator.read
    | .countFromInput => Reader.optional Reader.bool
    | .out => Reader.string
  closed := true

/-- Reads a compute. -/
def read : Reader (Compute String) :=
  shape.record fun absent slots => do
    let left ← slots.require absent .left
    let right ← slots.require absent .right
    let operator ← slots.require absent .operator
    let out ← slots.require absent .out
    return { left, right, operator, countFromInput := (slots .countFromInput).getD none, out }

/-- The compute as JSON. -/
def toJson (c : Compute String) : Json :=
  .obj
    ([("left", c.left.toJson), ("right", c.right.toJson), ("operator", c.operator.toJson)]
      ++ (match c.countFromInput with
        | none => []
        | some b => [("countFromInput", .bool b)])
      ++ [("out", .str c.out)])

end Compute

namespace Branch

variable {κ : Type}

/-- The fields of a branch. -/
inductive Field where
  | register
  | target
  deriving DecidableEq, Repr

/-- The written form of a branch. -/
def shape (target : Reader κ) : Shape Field where
  Value
    | .register => String
    | .target => κ
  fields := [.register, .target]
  key
    | .register => "branch"
    | .target => "goto"
  read
    | .register => Reader.string
    | .target => target
  closed := true

/-- Reads the register and the target of a branch. -/
def read (target : Reader κ) : Reader (String × κ) :=
  (shape target).record fun absent slots => do
    let register ← slots.require absent .register
    let target ← slots.require absent .target
    return (register, target)

/-- A branch as JSON. -/
def toJson (target : κ → Json) (register : String) (goto : κ) : Json :=
  .obj [("branch", .str register), ("goto", target goto)]

end Branch

namespace MicroOp

variable {κ : Type}

/-- Reads a micro-op, its branch target by `target`. -/
def read (target : Reader κ) : Reader (MicroOp String κ) :=
  Reader.choice "MicroOp"
    [ Reader.map (fun _ => .openGuard) GuardOpening.read,
      Reader.map .compute Compute.read,
      Reader.map (fun (r, t) => .branch r t) (Branch.read target) ]

/-- The micro-op as JSON. -/
def toJson (target : κ → Json) : MicroOp String κ → Json
  | .openGuard => GuardOpening.toJson
  | .compute c => c.toJson
  | .branch r t => Branch.toJson target r t

end MicroOp

namespace OpStep

variable {κ : Type}

/-- Reads an op-step, its branch targets by `target`. -/
def read (target : Reader κ) : Reader (OpStep String κ) := Reader.list (MicroOp.read target)

/-- The op-step as JSON. -/
def toJson (target : κ → Json) (s : OpStep String κ) : Json := .arr (s.map (MicroOp.toJson target))

end OpStep

/-! ## Blocks, states, programs -/

namespace Block

/-- The fields of a block. -/
inductive Field where
  | start
  | steps
  deriving DecidableEq, Repr

/-- The written form of a block. -/
def shape : Shape Field where
  Value
    | .start => Address
    | .steps => List (OpStep String Address)
  fields := [.start, .steps]
  key
    | .start => "start"
    | .steps => "operations"
  read
    | .start => Reader.uint32
    | .steps => Reader.list (OpStep.read Reader.uint32)
  closed := false

/-- Reads a block. -/
def read : Reader (Block String) :=
  shape.record fun absent slots => do
    let start ← slots.require absent .start
    let steps ← slots.require absent .steps
    return { start, steps }

/-- The block as JSON. -/
def toJson (b : Block String) : Json :=
  .obj [("start", .uint32 b.start), ("operations", .arr (b.steps.map (OpStep.toJson Json.uint32)))]

end Block

namespace ProgramState

/-- The fields of a program state. -/
inductive Field where
  | address
  | blocks
  deriving DecidableEq, Repr

/-- The written form of a program state. -/
def shape : Shape Field where
  Value
    | .address => Address
    | .blocks => List (Block String)
  fields := [.address, .blocks]
  key
    | .address => "state"
    | .blocks => "statements"
  read
    | .address => Reader.uint32
    | .blocks => Reader.list Block.read
  closed := false

/-- Reads a program state. -/
def read : Reader (ProgramState String) :=
  shape.record fun absent slots => do
    let address ← slots.require absent .address
    let blocks ← slots.require absent .blocks
    return { address, blocks }

/-- The program state as JSON. -/
def toJson (s : ProgramState String) : Json :=
  .obj [("state", .uint32 s.address), ("statements", .arr (s.blocks.map Block.toJson))]

end ProgramState

namespace Program

variable {τ : Type}

/-- Reads a program, its timers by `timer`. -/
def read (timer : Reader τ) : Reader (Program String τ) :=
  Timed.read timer ProgramState.read Program.mk

/-- The program as JSON, if its timers are JSON. -/
def toJson? (timer : τ → Option Json) (p : Program String τ) : Option Json :=
  Timed.toJson? timer ProgramState.toJson p.timers p.states

end Program

end Microstep
