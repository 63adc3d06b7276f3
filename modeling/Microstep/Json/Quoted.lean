/-!
# Quoted text

What stands between the quotes of a JSON string.  Writing escapes the quote, the backslash and the
control characters and leaves every other character as it is.  Reading happens in two steps,
because a text can be well formed and still stand for no string:

* `Quoted.codes?` resolves the escapes into code numbers and refuses ill-formed text;
* `Quoted.string?` joins the surrogate halves among the codes and refuses one without its partner.
-/

namespace Microstep.Json.Quoted

/-! ## Writing -/

/-- A digit to base sixteen, in lower case. -/
def hexDigit (n : Nat) : Char := Nat.digitChar (n % 16)

/-- A character as it is written between quotes. -/
def escape (c : Char) : List Char :=
  match c with
  | '"' => ['\\', '"']
  | '\\' => ['\\', '\\']
  | '\x08' => ['\\', 'b']
  | '\t' => ['\\', 't']
  | '\n' => ['\\', 'n']
  | '\x0c' => ['\\', 'f']
  | '\r' => ['\\', 'r']
  | c => if c < ' ' then ['\\', 'u', '0', '0', hexDigit (c.toNat / 16), hexDigit c.toNat] else [c]

/-- The text of a string, with its quotes. -/
def quote (s : String) : String :=
  String.ofList ('"' :: s.toList.flatMap escape ++ ['"'])

/-! ## Reading -/

/-- The value of a digit to base sixteen, in either case. -/
def hexValue? (c : Char) : Option Nat :=
  if '0' ≤ c ∧ c ≤ '9' then some (c.toNat - '0'.toNat)
  else if 'a' ≤ c ∧ c ≤ 'f' then some (c.toNat - 'a'.toNat + 10)
  else if 'A' ≤ c ∧ c ≤ 'F' then some (c.toNat - 'A'.toNat + 10)
  else none

/-- The code written by four digits to base sixteen. -/
def hexCode? (a b c d : Char) : Option Nat := do
  return 4096 * (← hexValue? a) + 256 * (← hexValue? b) + 16 * (← hexValue? c) + (← hexValue? d)

/-- The code that a single letter stands for after a backslash. -/
def letterCode? : Char → Option Nat
  | '"' => some 0x22
  | '\\' => some 0x5c
  | '/' => some 0x2f
  | 'b' => some 0x08
  | 'f' => some 0x0c
  | 'n' => some 0x0a
  | 'r' => some 0x0d
  | 't' => some 0x09
  | _ => none

/-- The codes of a text between quotes.  Ill formed are an unknown escape and a control character
that is not escaped. -/
def codes? : List Char → Option (List Nat)
  | [] => some []
  | '\\' :: 'u' :: a :: b :: c :: d :: rest => do
    let code ← hexCode? a b c d
    return code :: (← codes? rest)
  | '\\' :: c :: rest => do
    let code ← letterCode? c
    return code :: (← codes? rest)
  | c :: rest =>
    if c = '\\' ∨ c < ' ' then none else do return c.toNat :: (← codes? rest)

/-- The first halves of a surrogate pair. -/
def isHigh (n : Nat) : Bool := 0xd800 ≤ n && n < 0xdc00

/-- The second halves of a surrogate pair. -/
def isLow (n : Nat) : Bool := 0xdc00 ≤ n && n < 0xe000

/-- The characters of a list of codes; every surrogate half must stand beside its partner. -/
def chars? : List Nat → Option (List Char)
  | [] => some []
  | n :: rest =>
    if isHigh n then
      match rest with
      | low :: rest =>
        if isLow low then do
          let c := Char.ofNat (0x10000 + (n - 0xd800) * 0x400 + (low - 0xdc00))
          return c :: (← chars? rest)
        else none
      | [] => none
    else if isLow n then none
    else do return Char.ofNat n :: (← chars? rest)

/-- The string of a list of codes. -/
def string? (codes : List Nat) : Option String := (chars? codes).map String.ofList

end Microstep.Json.Quoted
