import Microstep.Json.Basic
import Microstep.Json.Numeral
import Microstep.Json.Quoted

/-!
# Writing JSON text

There is one way of writing values, and a `Layout` says what blanks go where: nothing at all, or
a line for every element, indented by two spaces for each level.  The two texts of a value differ
in blanks between tokens only.

* `Layout.compact`, `Layout.indented` — the two layouts;
* `Json.text` — the text of a value.
-/

namespace Microstep

namespace Json

/-- Where blanks go. -/
structure Layout where
  /-- What stands before an element at the given level, and before the end of what holds elements
  of the level above. -/
  line : Nat → String
  /-- What stands after the colon of a member. -/
  gap : String

/-- No blanks at all. -/
def Layout.compact : Layout := { line := fun _ => "", gap := "" }

/-- A line for every element, two spaces for every level. -/
def Layout.indented : Layout :=
  { line := fun level => String.ofList ('\n' :: List.replicate (2 * level) ' '), gap := " " }

/-- A list of texts between brackets; nothing stands between the brackets of an empty list. -/
def Layout.enclose (l : Layout) (level : Nat) (opening closing : String) :
    List String → String
  | [] => opening ++ closing
  | t :: ts =>
    opening ++ l.line (level + 1)
      ++ ("," ++ l.line (level + 1)).intercalate (t :: ts)
      ++ l.line level ++ closing

mutual

/-- The text of a value at a level of nesting. -/
def textAt (l : Layout) (level : Nat) : Json → String
  | .null => "null"
  | .bool true => "true"
  | .bool false => "false"
  | .num n => String.ofList n.numeral.chars
  | .str s => Quoted.quote s
  | .arr items => l.enclose level "[" "]" (itemTexts l (level + 1) items)
  | .obj members => l.enclose level "\x7b" "\x7d" (memberTexts l (level + 1) members)

/-- The texts of the values of an array. -/
def itemTexts (l : Layout) (level : Nat) : List Json → List String
  | [] => []
  | v :: vs => v.textAt l level :: itemTexts l level vs

/-- The texts of the members of an object. -/
def memberTexts (l : Layout) (level : Nat) : List (String × Json) → List String
  | [] => []
  | (k, v) :: ms =>
    (Quoted.quote k ++ ":" ++ l.gap ++ v.textAt l level) :: memberTexts l level ms

end

/-- **The text of a value.** -/
def text (l : Layout) (v : Json) : String := v.textAt l 0

end Json

end Microstep
