import Microstep.Json.Numeral
import Microstep.Json.Quoted

/-!
# Tokens

JSON text is first cut into tokens.  The scanner looks at one character at a time and carries what
it has seen of the token it is in, so scanning a text is a fold over its characters: scanning two
texts one after the other is scanning the second from where the first one ended.

Words, numerals and quoted texts are collected as long as they may go on and understood when they
end.  Nothing is lost by that: in JSON a character that could continue a token never starts the
next one.

* `Token` — punctuation, the three words, numerals, strings;
* `Scanner.step`, `Scanner.finish` — one character, the end of the text;
* `Token.scan?` — the tokens of a text.
-/

namespace Microstep.Json

/-- A token of JSON text. -/
inductive Token where
  | objectOpen
  | objectClose
  | arrayOpen
  | arrayClose
  | colon
  | comma
  | null
  | bool (b : Bool)
  | num (n : Numeral)
  /-- A quoted text; nothing if it is well formed but holds half a surrogate pair. -/
  | str (s : Option String)
  deriving DecidableEq, Repr

namespace Token

/-- The token that a punctuation character is. -/
def ofPunctuation? : Char → Option Token
  | '\x7b' => some .objectOpen
  | '\x7d' => some .objectClose
  | '[' => some .arrayOpen
  | ']' => some .arrayClose
  | ':' => some .colon
  | ',' => some .comma
  | _ => none

/-- The token that a bare word is. -/
def ofWord? (w : List Char) : Option Token :=
  if w = ['n', 'u', 'l', 'l'] then some .null
  else if w = ['t', 'r', 'u', 'e'] then some (.bool true)
  else if w = ['f', 'a', 'l', 's', 'e'] then some (.bool false)
  else none

/-- The token of the text between two quotes. -/
def ofQuoted? (w : List Char) : Option Token :=
  (Quoted.codes? w).map fun codes => .str (Quoted.string? codes)

end Token

/-- The characters that may stand between tokens. -/
def isBlank (c : Char) : Bool := c == ' ' || c == '\t' || c == '\n' || c == '\r'

/-- The characters that numerals are made of. -/
def isNumeralChar (c : Char) : Bool :=
  c.isDigit || c == '-' || c == '+' || c == '.' || c == 'e' || c == 'E'

/-- Where the scanner stands.  What it has seen of a token is kept with the last character
first. -/
inductive Scanner.Mode where
  | between
  | word (seen : List Char)
  | numeral (seen : List Char)
  | quoted (seen : List Char)
  /-- Inside quotes, right after a backslash. -/
  | escaped (seen : List Char)
  deriving DecidableEq, Repr

/-- The scanner: where it stands, and the tokens so far with the last one first. -/
structure Scanner where
  mode : Scanner.Mode
  tokens : List Token
  deriving DecidableEq, Repr

namespace Scanner

/-- A character met between two tokens. -/
def start? (tokens : List Token) (c : Char) : Option Scanner :=
  if isBlank c then some ⟨.between, tokens⟩
  else match Token.ofPunctuation? c with
    | some t => some ⟨.between, t :: tokens⟩
    | none =>
      if c = '"' then some ⟨.quoted [], tokens⟩
      else if c.isDigit ∨ c = '-' then some ⟨.numeral [c], tokens⟩
      else if c.isLower then some ⟨.word [c], tokens⟩
      else none

/-- One character. -/
def step (s : Scanner) (c : Char) : Option Scanner :=
  match s.mode with
  | .between => start? s.tokens c
  | .word seen =>
    if c.isLower then some ⟨.word (c :: seen), s.tokens⟩
    else do start? ((← Token.ofWord? seen.reverse) :: s.tokens) c
  | .numeral seen =>
    if isNumeralChar c then some ⟨.numeral (c :: seen), s.tokens⟩
    else do start? (.num (← Numeral.ofChars? seen.reverse) :: s.tokens) c
  | .quoted seen =>
    if c = '"' then do return ⟨.between, (← Token.ofQuoted? seen.reverse) :: s.tokens⟩
    else if c = '\\' then some ⟨.escaped (c :: seen), s.tokens⟩
    else some ⟨.quoted (c :: seen), s.tokens⟩
  | .escaped seen => some ⟨.quoted (c :: seen), s.tokens⟩

/-- The end of the text; it may not come inside quotes. -/
def finish (s : Scanner) : Option (List Token) :=
  match s.mode with
  | .between => some s.tokens.reverse
  | .word seen => do return ((← Token.ofWord? seen.reverse) :: s.tokens).reverse
  | .numeral seen => do return (.num (← Numeral.ofChars? seen.reverse) :: s.tokens).reverse
  | .quoted _ | .escaped _ => none

end Scanner

/-- **The tokens of a text.** -/
def Token.scan? (text : String) : Option (List Token) := do
  (← text.toList.foldlM Scanner.step ⟨.between, []⟩).finish

end Microstep.Json
