import Microstep.Json.Token

/-!
# Syntax trees

The tree a JSON text spells out.  It keeps what the text says and judges nothing: members stand in
their written order with repeated keys, numbers are numerals of any size, strings may be missing
half a surrogate pair, and nesting may be of any depth.  Readers decide which of that matters.

The tree is built from the tokens with an explicit stack of the arrays and objects still open, so
the building is a fold over the tokens and takes texts nested to any depth.

* `Tree` — the syntax tree;
* `Builder.step`, `Builder.finish` — one token, the end of the tokens;
* `Tree.ofTokens?`, `Tree.ofText?` — the tree of a list of tokens, of a text.
-/

namespace Microstep.Json

/-- A syntax tree. -/
inductive Tree where
  | null
  | bool (b : Bool)
  | num (n : Numeral)
  /-- A string; nothing if it holds half a surrogate pair. -/
  | str (s : Option String)
  | arr (items : List Tree)
  | obj (members : List (Option String × Tree))

/-- An array or an object that is still open, with its last element first. -/
inductive Builder.Frame where
  | array (items : List Tree)
  /-- An object in which the value of the member `key` comes next. -/
  | member (members : List (Option String × Tree)) (key : Option String)

/-- What has been built, told by what may come next; the stack holds the innermost frame first. -/
inductive Builder where
  /-- A value. -/
  | value (stack : List Builder.Frame)
  /-- The first value of an array, or its end. -/
  | item (stack : List Builder.Frame)
  /-- The first key of an object, or its end. -/
  | firstKey (stack : List Builder.Frame)
  /-- A further key of an object. -/
  | key (members : List (Option String × Tree)) (stack : List Builder.Frame)
  /-- The colon after a key. -/
  | colon (members : List (Option String × Tree)) (key : Option String) (stack : List Builder.Frame)
  /-- What follows a complete value: a comma, the end of what encloses it, or nothing. -/
  | done (value : Tree) (stack : List Builder.Frame)

namespace Builder

/-- A token that starts a value. -/
def start? (stack : List Frame) : Token → Option Builder
  | .arrayOpen => some (.item stack)
  | .objectOpen => some (.firstKey stack)
  | .null => some (.done .null stack)
  | .bool b => some (.done (.bool b) stack)
  | .num n => some (.done (.num n) stack)
  | .str s => some (.done (.str s) stack)
  | _ => none

/-- One token. -/
def step : Builder → Token → Option Builder
  | .value stack, t => start? stack t
  | .item stack, .arrayClose => some (.done (.arr []) stack)
  | .item stack, t => start? (.array [] :: stack) t
  | .firstKey stack, .objectClose => some (.done (.obj []) stack)
  | .firstKey stack, .str k => some (.colon [] k stack)
  | .key members stack, .str k => some (.colon members k stack)
  | .colon members k stack, .colon => some (.value (.member members k :: stack))
  | .done v (.array items :: stack), .comma => some (.value (.array (v :: items) :: stack))
  | .done v (.array items :: stack), .arrayClose => some (.done (.arr (v :: items).reverse) stack)
  | .done v (.member members k :: stack), .comma => some (.key ((k, v) :: members) stack)
  | .done v (.member members k :: stack), .objectClose =>
    some (.done (.obj ((k, v) :: members).reverse) stack)
  | _, _ => none

/-- The end of the tokens: one value, and nothing left open. -/
def finish : Builder → Option Tree
  | .done v [] => some v
  | _ => none

end Builder

namespace Tree

/-- The tree of a list of tokens. -/
def ofTokens? (tokens : List Token) : Option Tree := do
  (← tokens.foldlM Builder.step (.value [])).finish

/-- **The tree of a text.** -/
def ofText? (text : String) : Option Tree := (Token.scan? text).bind ofTokens?

end Tree

end Microstep.Json
