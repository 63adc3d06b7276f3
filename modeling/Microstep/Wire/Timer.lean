import Microstep.Json.Record

/-!
# Timers on the wire

Timers mean nothing to the lowering, so they may be anything that can be read and written.  Usually
they are JSON values, taken as they are; a caller that knows more about them may ask for words,
truth values, strings or maps.  A map whose keys are lists can be read as a list of pairs but,
unless it is empty, has no JSON form to be written in.

A machine is written as a record of its timers and its states, and so is a program.  The two differ
in what a state is.

* `TimerFormat` — how timers are read and written;
* `TimerFormat.json` — any JSON value; the others ask for more;
* `Timed.read`, `Timed.toJson?` — records of timers and states.
-/

namespace Microstep

open Json (Reader Shape)

/-- How timers are read and written. -/
structure TimerFormat (τ : Type) where
  read : Reader τ
  /-- The JSON form, where there is one. -/
  write : τ → Option Json

namespace TimerFormat

/-- Any JSON value, as it is. -/
def json : TimerFormat Json := { read := Json.Tree.value, write := some }

/-- Unsigned 8-bit words. -/
def uint8 : TimerFormat UInt8 :=
  { read := Reader.uint8, write := fun n => some (.uint32 n.toUInt32) }

/-- Signed 64-bit words. -/
def int64 : TimerFormat Int64 := { read := Reader.int64, write := fun n => some (.int64 n) }

/-- Truth values. -/
def bool : TimerFormat Bool := { read := Reader.bool, write := fun b => some (.bool b) }

/-- Strings. -/
def string : TimerFormat String := { read := Reader.string, write := fun s => some (.str s) }

/-- Nothing but `null`. -/
def unit : TimerFormat Unit := { read := Reader.unit, write := fun _ => some .null }

/-- Maps from lists of words to words, read as lists of pairs.  Only the empty map can be
written. -/
def map : TimerFormat (List (List Int64 × Int64)) :=
  { read := Reader.list (Reader.pair (Reader.list Reader.int64) Reader.int64)
    write := fun
      | [] => some (.obj [])
      | _ :: _ => none }

end TimerFormat

/-! ## Records of timers and states -/

namespace Timed

variable {τ σ α : Type}

/-- The fields of a machine or a program. -/
inductive Field where
  | timers
  | states
  deriving DecidableEq, Repr

/-- The written form of a record of timers and states. -/
def shape (timer : Reader τ) (state : Reader σ) : Shape Field where
  Value
    | .timers => List τ
    | .states => List σ
  fields := [.timers, .states]
  key
    | .timers => "timers"
    | .states => "states"
  read
    | .timers => Reader.list timer
    | .states => Reader.list state
  closed := false

/-- Reads a record of timers and states, of which the timers may be left out. -/
def read (timer : Reader τ) (state : Reader σ) (make : List τ → List σ → α) : Reader α :=
  (shape timer state).record fun absent slots => do
    let states ← slots.require absent .states
    return make ((slots .timers).getD []) states

/-- Timers and states as JSON, if the timers are JSON. -/
def toJson? (timer : τ → Option Json) (state : σ → Json) (timers : List τ) (states : List σ) :
    Option Json := do
  let timers ← timers.mapM timer
  return .obj [("timers", .arr timers), ("states", .arr (states.map state))]

end Timed

end Microstep
