import Microstep.Check
import Microstep.Draft
import Microstep.Wire.Text
import Microstep.Proofs.Blocks
import Microstep.Proofs.Lowering
import Microstep.Proofs.Addresses
import Microstep.Proofs.Agreement
import Microstep.Proofs.Acceptance
import Microstep.Proofs.Execution
import Microstep.Proofs.Reduction
import Microstep.Proofs.Suffixes
import Microstep.Proofs.Registers
import Microstep.Proofs.Meaning
import Microstep.Proofs.Layout
import Microstep.Proofs.Branches
import Microstep.Proofs.Json.Value
import Microstep.Proofs.Json.Syntax
import Microstep.Proofs.Json.Lexis
import Microstep.Proofs.Json.Spelling
import Microstep.Proofs.Json.Reading
import Microstep.Proofs.Operators
import Microstep.Proofs.ProgramText
import Microstep.Proofs.MachineText
import Microstep.Proofs.Compilation
import Microstep.Proofs.Relabeling
import Microstep.Proofs.Renaming
import Microstep.Proofs.Pinning
import Microstep.Proofs.Reordering
import Microstep.Proofs.MachineRoundTrip
import Microstep.Proofs.Independence
import Microstep.Proofs.Rendering
import Microstep.Proofs.Temps
import Microstep.Proofs.Discipline
import Microstep.Proofs.Collisions
import Microstep.Proofs.Postorder
import Microstep.Proofs.Scoping
import Microstep.Proofs.Allocation
import Microstep.Proofs.Aliasing
import Microstep.Proofs.Json.Forms
import Microstep.Proofs.MicroOps
import Microstep.Proofs.Json.Levels
import Microstep.Proofs.Normalization
import Microstep.Proofs.Json.Respelling
import Microstep.Proofs.Respelling
import Microstep.Proofs.Labels
