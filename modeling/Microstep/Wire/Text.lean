import Microstep.Json.Printer
import Microstep.Lowering.Basic
import Microstep.Register.Naming
import Microstep.Wire.Program
import Microstep.Wire.Timer

/-!
# From text to text

Machines and programs as JSON text, and the way from the text of a machine to the text of the
program it is lowered to.

* `Machine.ofText`, `Machine.text?`, `Program.ofText`, `Program.text?` — reading and writing;
* `CompileError`, `compileWith`, `compile` — text to text.
-/

namespace Microstep

open Json (ReadFault Layout)

variable {τ : Type}

/-- Reads a machine from text. -/
def Machine.ofText (format : TimerFormat τ) (text : String) : Except ReadFault (Machine τ) :=
  (Machine.read format.read).run text

/-- The text of a machine, if its timers can be written. -/
def Machine.text? (format : TimerFormat τ) (layout : Layout) (m : Machine τ) : Option String :=
  (m.toJson? format.write).map (Json.text layout)

/-- Reads a program from text. -/
def Program.ofText (format : TimerFormat τ) (text : String) :
    Except ReadFault (Program String τ) :=
  (Program.read format.read).run text

/-- The text of a program, if its timers can be written. -/
def Program.text? (format : TimerFormat τ) (layout : Layout) (p : Program String τ) :
    Option String :=
  (p.toJson? format.write).map (Json.text layout)

/-- Why a text cannot be compiled. -/
inductive CompileError where
  /-- The text is no machine. -/
  | unreadable (fault : ReadFault)
  /-- The machine cannot be lowered. -/
  | rejected (error : LowerError)
  /-- The program cannot be written. -/
  | unwritable
  deriving DecidableEq, Repr

/-- Compiles the text of a machine with timers of any format. -/
def compileWith (format : TimerFormat τ) (layout : Layout) (naming : Naming) (text : String) :
    Except CompileError String :=
  match Machine.ofText format text with
  | .error fault => .error (.unreadable fault)
  | .ok m => match m.lower naming.scheme with
    | .error e => .error (.rejected e)
    | .ok p => match p.text? format layout with
      | none => .error .unwritable
      | some out => .ok out

/-- **Compiles the text of a machine** to the text of its program, without blanks. -/
def compile (naming : Naming) (text : String) : Except CompileError String :=
  compileWith .json .compact naming text

end Microstep
