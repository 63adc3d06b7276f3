import Microstep.Json.Binary64

/-!
# Numbers and numerals

A JSON number is kept in one of two ways.  An integer that fits a 64-bit word, signed or
unsigned, stays an integer; every other number becomes a 64-bit binary float.  The range of the
integers is part of the type, so a `Number` that says it is an integer can always be written and
read back.

A numeral is the written form of a number, taken apart: sign, digits before the point, digits
after it, exponent.  Text is read into numerals without asking how large the number is; only when
a number is wanted does `Numeral.value?` settle whether it is an integer, a float, or too large to
be either.

* `Number` — an integer in range, or the bits of a float;
* `Number.ofInt?` — the integer, when it is in range;
* `Numeral.ofChars?` and `Numeral.chars` — reading and writing the text;
* `Numeral.value?` — the number a numeral stands for;
* `Number.numeral` — the numeral a number is written as.
-/

namespace Microstep.Json

/-! ## Numbers -/

/-- The integers that are kept exactly: those of a signed or of an unsigned 64-bit word. -/
abbrev InWordRange (n : Int) : Prop := -9223372036854775808 ≤ n ∧ n < 18446744073709551616

/-- A number of a JSON value. -/
inductive Number where
  /-- An integer in word range. -/
  | int (value : Int) (inRange : InWordRange value)
  /-- Any other number, as the bits of a 64-bit binary float. -/
  | float (bits : UInt64)
  deriving DecidableEq, Repr

namespace Number

/-- The exact number `n`, if it is in word range. -/
def ofInt? (n : Int) : Option Number :=
  if h : InWordRange n then some (.int n h) else none

/-- The exact number of a signed 64-bit word. -/
def ofInt64 (n : Int64) : Number :=
  .int n.toInt ⟨by have := n.le_toInt; simpa using this, by have := n.toInt_lt; omega⟩

/-- The exact number of an unsigned 32-bit word. -/
def ofUInt32 (n : UInt32) : Number :=
  .int n.toNat ⟨by omega, by have := n.toNat_lt; omega⟩

end Number

/-! ## Numerals -/

/-- The written form of a number. -/
structure Numeral where
  /-- Whether it starts with a minus sign. -/
  negative : Bool
  /-- The digits before the point. -/
  whole : List Char
  /-- The digits after the point; none if there is no point. -/
  fraction : List Char
  /-- Sign (true for minus) and digits of the exponent, if there is one. -/
  exponent : Option (Bool × List Char)
  deriving DecidableEq, Repr

namespace Numeral

/-! ## Text -/

/-- The text of a numeral. -/
def chars (n : Numeral) : List Char :=
  (if n.negative then ['-'] else [])
    ++ n.whole
    ++ (if n.fraction.isEmpty then [] else '.' :: n.fraction)
    ++ match n.exponent with
      | none => []
      | some (negative, digits) => 'e' :: (if negative then '-' :: digits else digits)

/-- Splits off the digits at the front; there must be one. -/
def digits? (cs : List Char) : Option (List Char × List Char) :=
  match cs.span Char.isDigit with
  | ([], _) => none
  | (ds, rest) => some (ds, rest)

/-- The exponent that ends a numeral, if anything is left of it. -/
def exponent? : List Char → Option (Option (Bool × List Char))
  | [] => some none
  | c :: cs =>
    if c = 'e' ∨ c = 'E' then
      let (negative, cs) := match cs with
        | '-' :: cs => (true, cs)
        | '+' :: cs => (false, cs)
        | cs => (false, cs)
      match digits? cs with
      | some (ds, []) => some (some (negative, ds))
      | _ => none
    else none

/-- The numeral without its sign.  A zero in front is the only digit before the point. -/
def unsigned? (negative : Bool) (cs : List Char) : Option Numeral := do
  let (whole, rest) ← digits? cs
  guard (whole.head? ≠ some '0' ∨ whole = ['0'])
  let (fraction, rest) ← match rest with
    | '.' :: rest => digits? rest
    | rest => some ([], rest)
  return { negative, whole, fraction, exponent := ← exponent? rest }

/-- Reads a numeral that takes up the whole text. -/
def ofChars? : List Char → Option Numeral
  | '-' :: cs => unsigned? true cs
  | cs => unsigned? false cs

/-! ## Value -/

/-- Appends digits to a significand as long as it fits a 64-bit word; the second component counts
the digits from the first that does not fit. -/
def absorb (significand : Nat) : List Char → Nat × Nat
  | [] => (significand, 0)
  | c :: cs =>
    let next := 10 * significand + (c.toNat - '0'.toNat)
    if next < UInt64.size then absorb next cs else (significand, (c :: cs).length)

/-- The written exponent. -/
def writtenExponent (n : Numeral) : Int :=
  match n.exponent with
  | none => 0
  | some (negative, digits) =>
    let e : Int := Nat.ofDigitChars 10 digits 0
    if negative then -e else e

/-- The float a numeral stands for.  Digits before the point that do not fit the significand
raise the exponent instead; digits after the point that do not fit are dropped. -/
def float? (n : Numeral) : Option Float := do
  let (whole, more) := absorb 0 n.whole
  let (significand, dropped) := absorb whole n.fraction
  let exponent : Int := more - (n.fraction.length - dropped : Nat) + n.writtenExponent
  let f ← Binary64.scale? significand.toUInt64 exponent
  return if n.negative then -f else f

/-- The integer a numeral stands for if it has neither point nor exponent.  A negative zero is
no integer. -/
def int? (n : Numeral) : Option Int :=
  if n.fraction.isEmpty ∧ n.exponent.isNone then
    let v := Nat.ofDigitChars 10 n.whole 0
    if n.negative then (if v = 0 then none else some (-v)) else some v
  else none

/-- **The number a numeral stands for.**  An integer in word range is kept exactly; everything
else is a float, and there is none for a number beyond the largest float. -/
def value? (n : Numeral) : Option Number :=
  match n.int?.bind Number.ofInt? with
  | some v => some v
  | none => n.float?.map fun f => .float f.toBits

end Numeral

namespace Number

/-- The numeral of an integer. -/
def intNumeral (n : Int) : Numeral :=
  { negative := n < 0, whole := Nat.toDigits 10 n.natAbs, fraction := [], exponent := none }

/-- The magnitude written by digits `ds` and the power `k` of ten: positional from `10 ^ (-5)` up to
`10 ^ 16`, with at least one digit after the point, and with an exponent elsewhere. -/
def decimalNumeral (negative : Bool) (ds : List Char) (k : Int) : Numeral :=
  let point : Int := ds.length + k
  if 0 ≤ k ∧ point ≤ 16 then
    { negative, whole := ds ++ List.replicate k.toNat '0', fraction := ['0'], exponent := none }
  else if 0 < point ∧ point ≤ 16 then
    { negative, whole := ds.take point.toNat, fraction := ds.drop point.toNat, exponent := none }
  else if -5 < point ∧ point ≤ 0 then
    { negative, whole := ['0'], fraction := List.replicate (-point).toNat '0' ++ ds
      exponent := none }
  else
    { negative, whole := ds.take 1, fraction := ds.drop 1
      exponent := some (point - 1 < 0, Nat.toDigits 10 (point - 1).natAbs) }

/-- The numeral of a float, in its shortest digits. -/
def floatNumeral (bits : UInt64) : Numeral :=
  let negative := Binary64.isNegative bits
  if Binary64.mantissa bits = 0 then
    { negative, whole := ['0'], fraction := ['0'], exponent := none }
  else
    let (c, k) := Binary64.shortest bits
    decimalNumeral negative (Nat.toDigits 10 c) k

/-- The numeral a number is written as. -/
def numeral : Number → Numeral
  | .int n _ => intNumeral n
  | .float bits => floatNumeral bits

end Number

end Microstep.Json
