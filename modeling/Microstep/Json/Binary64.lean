/-!
# 64-bit binary floats and decimal digits

The two directions between decimal digits and a 64-bit binary float.

**From decimal.**  `Binary64.scale?` turns a significand and a power of ten into a float: the
significand is rounded to a float first and scaled once, in float arithmetic, so a value that
needs more than 53 bits may be off by the last bit.  A result beyond the largest float has no
value.

**To decimal.**  `Binary64.shortest` gives the shortest digits that read back as the same float.
All reals in an interval round to a given float; among the decimal grids `10 ^ k` the coarsest one
that has a point in that interval gives the fewest digits, and of its points the one nearest to
the float is taken.  The search is in exact natural-number arithmetic.
-/

namespace Microstep.Json.Binary64

/-- The largest power of ten that is a float. -/
def maxPower : Nat := 308

/-- The float nearest to `10 ^ k`. -/
def powerOfTen (k : Nat) : Float := Float.ofScientific 1 false k

/-- `f · 10 ^ (-k)`, in steps of at most `10 ^ 308`. -/
def scaleDown (f : Float) (k : Nat) : Float :=
  if k ≤ maxPower then f / powerOfTen k
  else if f == 0 then f
  else scaleDown (f / powerOfTen maxPower) (k - maxPower)
termination_by k
decreasing_by simp only [maxPower] at *; omega

/-- The float for `significand · 10 ^ exponent`; there is none beyond the largest float. -/
def scale? (significand : UInt64) (exponent : Int) : Option Float :=
  let f := significand.toFloat
  match exponent with
  | .ofNat k =>
    if k ≤ maxPower then
      let g := f * powerOfTen k
      if g.isInf then none else some g
    else if f == 0 then some f else none
  | .negSucc k => some (scaleDown f (k + 1))

/-! ## The fields of a float -/

/-- Whether the sign bit is set. -/
def isNegative (bits : UInt64) : Bool := bits.toNat / Nat.pow 2 63 == 1

/-- The biased exponent field. -/
def exponentField (bits : UInt64) : Nat := bits.toNat / Nat.pow 2 52 % Nat.pow 2 11

/-- The fraction field. -/
def fractionField (bits : UInt64) : Nat := bits.toNat % Nat.pow 2 52

/-- The integer `m` of the magnitude `m · 2 ^ q`. -/
def mantissa (bits : UInt64) : Nat :=
  if exponentField bits = 0 then fractionField bits else fractionField bits + Nat.pow 2 52

/-- The exponent `q` of the magnitude `m · 2 ^ q`. -/
def exponent (bits : UInt64) : Int := (max (exponentField bits) 1 : Nat) - 1075

/-! ## The shortest digits -/

/-- The reals that round to one float, as multiples of `2 ^ (q - 2)`: between `low` and `high`, the
float itself at `mid`, the ends included or not. -/
structure Interval where
  low : Nat
  mid : Nat
  high : Nat
  closed : Bool

/-- **The rounding interval of a float.**  It reaches half a unit to each side, but only a quarter
below where the float is the least of its binade; a tie goes to the even mantissa, so the ends
belong to it exactly then. -/
def interval (bits : UInt64) : Interval :=
  let m := mantissa bits
  let below := if fractionField bits = 0 ∧ 1 < exponentField bits then 1 else 2
  { low := 4 * m - below, mid := 4 * m, high := 4 * m + 2, closed := m % 2 == 0 }

/-- The point of the grid `10 ^ k` inside the interval of the float that is nearest to it, as a
multiple of `10 ^ k`; of two at the same distance the even one. -/
def onGrid? (bits : UInt64) (k : Int) : Option Nat :=
  let i := interval bits
  let q := exponent bits - 2
  let unit := Nat.pow 2 q.toNat * Nat.pow 10 (-k).toNat
  let step := Nat.pow 2 (-q).toNat * Nat.pow 10 k.toNat
  let inside (c : Nat) : Bool :=
    if i.closed then i.low * unit ≤ c * step ∧ c * step ≤ i.high * unit
    else i.low * unit < c * step ∧ c * step < i.high * unit
  let c := i.mid * unit / step
  let r := i.mid * unit % step
  match inside c, inside (c + 1) with
  | true, true => some (if 2 * r < step ∨ (2 * r = step ∧ c % 2 = 0) then c else c + 1)
  | true, false => some c
  | false, true => some (c + 1)
  | false, false => none

/-- **The shortest digits.**  Digits `c` and an exponent `k` such that `c · 10 ^ k` reads back as
the magnitude of the float, on the coarsest grid that allows it. -/
def shortest (bits : UInt64) : Nat × Int :=
  let grids := (List.range 650).map fun i : Nat => (310 : Int) - (i : Int)
  (grids.findSome? fun k => (onGrid? bits k).map (·, k)).getD (0, 0)

end Microstep.Json.Binary64
