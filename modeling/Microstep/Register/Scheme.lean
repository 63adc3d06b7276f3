import Microstep.Expr

/-!
# Register schemes

A lowered state works on four kinds of registers: those of the author's variables, one signal for
each counter it raises, temps for intermediate values, and the guard.  A scheme says which register
each of them is.  The lowering never compares registers, so it cannot depend on the scheme in any
other way.

* `Register` — the four kinds, kept apart;
* `RegisterScheme` — a choice of registers; `RegisterScheme.free` — the one that keeps them apart;
* `RegisterScheme.read` — the register a variable is read from.
-/

namespace Microstep

/-- A register, by what it is for. -/
inductive Register where
  | user (name : String)
  | signal (counter : String)
  | temp (index : Nat)
  | guard
  deriving DecidableEq, Repr

/-- Which register each kind of register is. -/
structure RegisterScheme (ρ : Type) where
  user : String → ρ
  signal : String → ρ
  temp : Nat → ρ
  guard : ρ

namespace RegisterScheme

variable {ρ : Type}

/-- The scheme that keeps all registers apart. -/
def free : RegisterScheme Register :=
  { user := .user, signal := .signal, temp := .temp, guard := .guard }

/-- The register a scheme chooses. -/
def render (scheme : RegisterScheme ρ) : Register → ρ
  | .user v => scheme.user v
  | .signal c => scheme.signal c
  | .temp n => scheme.temp n
  | .guard => scheme.guard

/-- The scheme that keeps registers apart chooses each for itself. -/
@[simp] theorem render_free (r : Register) : free.render r = r := by
  cases r <;> rfl

/-- The register a variable is read from: its signal, if it is among the counters raised so far. -/
def read (scheme : RegisterScheme ρ) (raised : List String) (v : String) : ρ :=
  if v ∈ raised then scheme.signal v else scheme.user v

theorem read_of_mem (scheme : RegisterScheme ρ) {raised : List String} {v : String}
    (h : v ∈ raised) : scheme.read raised v = scheme.signal v := if_pos h

theorem read_of_not_mem (scheme : RegisterScheme ρ) {raised : List String} {v : String}
    (h : v ∉ raised) : scheme.read raised v = scheme.user v := if_neg h

end RegisterScheme

end Microstep
