import Microstep.Register.Scheme

/-!
# Register names

A naming gives names to the registers of a lowered state: variables keep theirs, a signal is the
name of its counter behind a stem, a temp is a suffix behind another stem, and the guard has a name
of its own.  A naming is valid if no two of these can meet in one name.

Suffixes are letters: `A` to `Z`, then `AA` to `ZZ`, and so on, the way columns of a sheet are
lettered.  Every non-empty word over the letters is the suffix of exactly one number.

* `Suffix.ofNat` — the suffix of a number;
* `Naming` — the names; `Naming.standard` — the usual ones;
* `Naming.scheme` — the registers it stands for;
* `Naming.validate` — refuses empty names and names that can meet.
-/

namespace Microstep

/-! ## Suffixes -/

namespace Suffix

/-- The `n`-th letter. -/
def letter (n : Nat) : Char := Char.ofNat ('A'.toNat + n % 26)

/-- The letters of the suffix of a number. -/
def letters (n : Nat) : List Char :=
  if n < 26 then [letter n] else letters (n / 26 - 1) ++ [letter n]
termination_by n
decreasing_by omega

theorem letters_of_lt {n : Nat} (h : n < 26) : letters n = [letter n] := by
  rw [letters, if_pos h]

theorem letters_of_le {n : Nat} (h : 26 ≤ n) :
    letters n = letters (n / 26 - 1) ++ [letter n] := by
  rw [letters, if_neg (Nat.not_lt.mpr h)]

/-- The suffix of a number. -/
def ofNat (n : Nat) : String := String.ofList (letters n)

end Suffix

/-! ## Namings -/

/-- The names of the registers that the lowering introduces. -/
structure Naming where
  /-- The guard. -/
  guard : String
  /-- What the name of a signal starts with. -/
  signalStem : String
  /-- What the name of a temp starts with. -/
  tempStem : String
  deriving DecidableEq, Repr

/-- What is wrong with a naming. -/
inductive NamingError where
  /-- The name of the given setting is empty. -/
  | emptyName (setting : String)
  /-- One of the two names starts with the other. -/
  | overlap (first second : String)
  deriving DecidableEq, Repr

/-- The text of a naming error. -/
def NamingError.message : NamingError → String
  | .emptyName setting => "Register name `" ++ setting ++ "` must not be empty"
  | .overlap first second => "Register names `" ++ first ++ "` and `" ++ second ++ "` overlap"

namespace Naming

/-- The usual names. -/
def standard : Naming := { guard := "GUARD", signalStem := "signal_", tempStem := "INT_" }

/-- The name of the signal of a counter. -/
def signal (n : Naming) (counter : String) : String := n.signalStem ++ counter

/-- The name of a temp. -/
def temp (n : Naming) (index : Nat) : String := n.tempStem ++ Suffix.ofNat index

/-- The registers a naming stands for. -/
def scheme (n : Naming) : RegisterScheme String :=
  { user := id, signal := n.signal, temp := n.temp, guard := n.guard }

/-- Whether a name starts with a stem. -/
def startsWith (name stem : String) : Bool := stem.toList.isPrefixOf name.toList

/-- The settings of a naming, with what they are called. -/
def settings (n : Naming) : List (String × String) :=
  [("guard_register", n.guard), ("signal_prefix", n.signalStem), ("temp_prefix", n.tempStem)]

/-- **Valid namings.**  No name is empty, neither stem starts with the other, and the guard starts
with neither. -/
def validate (n : Naming) : Except NamingError Naming :=
  match n.settings.find? fun (_, name) => name == "" with
  | some (setting, _) => .error (.emptyName setting)
  | none =>
    if startsWith n.signalStem n.tempStem || startsWith n.tempStem n.signalStem then
      .error (.overlap n.signalStem n.tempStem)
    else match [n.signalStem, n.tempStem].find? (startsWith n.guard) with
      | some stem => .error (.overlap n.guard stem)
      | none => .ok n

end Naming

end Microstep
