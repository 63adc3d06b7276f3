import Microstep.Json.Basic
import Microstep.Json.Tree

/-!
# Readers

A reader takes a typed value out of a syntax tree, or says what is wrong with the tree.  It goes
through the tree from left to right and stops at the first fault.  Its first argument is the
number of levels of arrays and objects that may still be entered: a text may nest `maxDepth` of
them, and a reader that enters one leaves one level less to what is inside.

* `ReadFault` — what can be wrong, and `ReadFault.message?`, its text;
* `Reader` — readers, with `Reader.bool`, `Reader.string`, `Reader.integer`, `Reader.list`,
  `Reader.optional`, `Reader.pair`;
* `Tree.value` — a whole tree read as a JSON value;
* `Reader.choice` — a type whose values have several forms;
* `Reader.run` — a text read as one value.
-/

namespace Microstep.Json

/-- What keeps a text from being read. -/
inductive ReadFault where
  /-- The text is not JSON. -/
  | notJson
  /-- A value of another JSON type is wanted. -/
  | wrongType
  /-- A number is too large or too small. -/
  | outOfRange
  /-- A string holds half a surrogate pair. -/
  | unpairedSurrogate
  /-- An array has too few or too many elements. -/
  | wrongLength
  /-- Arrays and objects are nested too deeply. -/
  | tooDeep
  /-- A record lacks a field. -/
  | missingField (key : String)
  /-- A record has a field twice. -/
  | duplicateField (key : String)
  /-- A record that knows only the keys `expected` has another one. -/
  | unknownField (key : String) (expected : List String)
  /-- A value has none of the forms that the values of a type have. -/
  | noVariant (type : String)
  /-- A guard is opened by something other than `true`. -/
  | guardNotTrue
  deriving DecidableEq, Repr

namespace ReadFault

/-- The keys of a record, as a reader is told what was expected. -/
def expectation (keys : List String) : String :=
  match keys.map fun k => "`" ++ k ++ "`" with
  | [k] => k
  | [k, l] => k ++ " or " ++ l
  | ks => "one of " ++ ", ".intercalate ks

/-- The text of a fault; faults in the JSON itself have none. -/
def message? : ReadFault → Option String
  | .missingField key => some ("missing field `" ++ key ++ "`")
  | .duplicateField key => some ("duplicate field `" ++ key ++ "`")
  | .unknownField key expected =>
    some ("unknown field `" ++ key ++ "`, expected " ++ expectation expected)
  | .noVariant type => some ("data did not match any variant of untagged enum " ++ type)
  | .guardNotTrue => some "guard must be true"
  | .notJson | .wrongType | .outOfRange | .unpairedSurrogate | .wrongLength | .tooDeep => none

end ReadFault

/-- How many arrays and objects may stand inside each other. -/
def maxDepth : Nat := 127

/-- A reader: from the number of levels that may still be entered and a tree to a value. -/
abbrev Reader (α : Type) := Nat → Tree → Except ReadFault α

/-! ## Whole values -/

/-- The string of a string literal. -/
def literal : Option String → Except ReadFault String
  | some s => .ok s
  | none => .error .unpairedSurrogate

/-- **A whole tree as a JSON value.**  Numbers must be in range, surrogates paired and levels left;
the members of objects come out sorted by key. -/
def Tree.value : Reader Json
  | _, .null => .ok .null
  | _, .bool b => .ok (.bool b)
  | _, .num n => match n.value? with
    | some v => .ok (.num v)
    | none => .error .outOfRange
  | _, .str s => return .str (← literal s)
  | 0, .arr _ | 0, .obj _ => .error .tooDeep
  | d + 1, .arr items => return .arr (← items.mapM (Tree.value d))
  | d + 1, .obj members => do
    let members ← members.mapM fun (k, t) => do return (← literal k, ← Tree.value d t)
    return .obj (ofMembers members)

namespace Reader

variable {α β : Type}

/-- Reads what `r` reads and changes it by `f`. -/
def map (f : α → β) (r : Reader α) : Reader β := fun d t => f <$> r d t

/-! ## Scalars -/

/-- Reads `null`. -/
def unit : Reader Unit
  | _, .null => .ok ()
  | _, _ => .error .wrongType

/-- Reads a truth value. -/
def bool : Reader Bool
  | _, .bool b => .ok b
  | _, _ => .error .wrongType

/-- Reads a string. -/
def string : Reader String
  | _, .str s => literal s
  | _, _ => .error .wrongType

/-- Reads an integer from `low` to `high`. -/
def integer (low high : Int) : Reader Int
  | _, .num n => match n.value? with
    | some (.int v _) => if low ≤ v ∧ v ≤ high then .ok v else .error .outOfRange
    | some (.float _) => .error .wrongType
    | none => .error .outOfRange
  | _, _ => .error .wrongType

/-- Reads a signed 64-bit word. -/
def int64 : Reader Int64 := map Int64.ofInt (integer (-9223372036854775808) 9223372036854775807)

/-- Reads an unsigned 32-bit word. -/
def uint32 : Reader UInt32 := map (fun v => UInt32.ofNat v.toNat) (integer 0 4294967295)

/-- Reads an unsigned 8-bit word. -/
def uint8 : Reader UInt8 := map (fun v => UInt8.ofNat v.toNat) (integer 0 255)

/-! ## Composite values -/

/-- Reads an array of any length. -/
def list (r : Reader α) : Reader (List α)
  | d + 1, .arr items => items.mapM (r d)
  | 0, .arr _ => .error .tooDeep
  | _, _ => .error .wrongType

/-- Reads an array of two. -/
def pair (r : Reader α) (s : Reader β) : Reader (α × β)
  | d + 1, .arr items => match items with
    | [] => .error .wrongLength
    | [a] => do
      let _ ← r d a
      .error .wrongLength
    | a :: b :: more => do
      let a ← r d a
      let b ← s d b
      if more.isEmpty then return (a, b) else .error .wrongLength
  | 0, .arr _ => .error .tooDeep
  | _, _ => .error .wrongType

/-- Reads a value that may be `null` instead. -/
def optional (r : Reader α) : Reader (Option α)
  | _, .null => .ok none
  | d, t => some <$> r d t

/-- **A type whose values have several forms.**  The tree must make sense as a whole before any of
the forms is tried; the first form that fits counts.  No matter how far the best form went, the
fault is only that none fits. -/
def choice (type : String) (forms : List (Reader α)) : Reader α := fun d t => do
  let _ ← t.value d
  match forms.findSome? fun r => (r d t).toOption with
  | some a => .ok a
  | none => .error (.noVariant type)

/-- **Reads a text.** -/
def run (r : Reader α) (text : String) : Except ReadFault α :=
  match Tree.ofText? text with
  | some t => r maxDepth t
  | none => .error .notJson

end Reader

end Microstep.Json
