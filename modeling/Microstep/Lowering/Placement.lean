import Microstep.Lowering.Error

/-!
# Placing states

Addresses for the states of a machine, from their ids and widths alone.

A state with a numeric id lies at that address.  The others are packed one after the other above
all of them, in the order of the machine.  Behind every state one slot stays reserved, and the
reserved slot too must be an address.  Numeric ids are taken at their word, so the states they
place may run into each other; that is found out afterwards.  A state takes up at least its own
address, even if nothing is in it.

* `Extent` — the id and width of a state; `Extent.next` — the first address free after it;
* `Placement.assign` — the address of every state;
* `Footprint` — the addresses a state takes up; `Footprint.collision?` — the first two that meet.
-/

namespace Microstep

/-- What matters of a state when it is placed. -/
structure Extent where
  id : StateId
  width : Nat
  deriving DecidableEq, Repr

/-- The first address after a state that starts at `start`, and after its reserved slot. -/
def Extent.next (e : Extent) (start : Nat) : Except LowerError Nat :=
  if start + e.width + 1 < UInt32.size then .ok (start + e.width + 1)
  else .error (.addressOverflow e.id)

/-- A state fits exactly where its reserved slot is an address. -/
theorem Extent.next_eq_ok_iff (e : Extent) (start n : Nat) :
    e.next start = .ok n ↔ start + e.width + 1 < UInt32.size ∧ n = start + e.width + 1 := by
  unfold Extent.next
  split
  case isTrue h => simp [h, eq_comm]
  case isFalse h => simp [h]

namespace Placement

/-- The first address after all states with numeric ids. -/
def base (extents : List Extent) : Except LowerError Nat :=
  extents.foldlM (fun base e => match e.id with
    | .numeric a => do return max base (← e.next a.toNat)
    | .symbolic _ => pure base) 0

/-- Packs the states with symbolic ids from `cursor` on. -/
def pack (cursor : Nat) : List Extent → Except LowerError (List Address)
  | [] => .ok []
  | e :: rest => match e.id with
    | .numeric a => do return a :: (← pack cursor rest)
    | .symbolic _ => do
      let next ← e.next cursor
      return UInt32.ofNat cursor :: (← pack next rest)

/-- **The address of every state.**  No id may be declared twice. -/
def assign (extents : List Extent) : Except LowerError (List Address) :=
  match StateId.repeats (extents.map Extent.id) with
  | id :: _ => .error (.duplicateLabel id)
  | [] => do pack (← base extents) extents

end Placement

/-- The addresses that a state takes up, from `start` until before `stop`. -/
structure Footprint where
  id : StateId
  start : Address
  stop : Nat
  deriving DecidableEq, Repr

namespace Footprint

/-- The footprint of a state at an address.  It may not stop past the last address. -/
def ofExtent (e : Extent) (start : Address) : Except LowerError Footprint :=
  if start.toNat + e.width < UInt32.size then
    .ok { id := e.id, start, stop := max (start.toNat + e.width) (start.advance 1).toNat }
  else .error (.addressOverflow e.id)

/-- The footprints of states at their addresses. -/
def ofExtents (extents : List Extent) (addresses : List Address) :
    Except LowerError (List Footprint) :=
  (extents.zip addresses).mapM fun p => ofExtent p.1 p.2

/-- Footprints in the order of their starts. -/
def byStart (footprints : List Footprint) : List Footprint :=
  footprints.mergeSort fun f g => f.start.toNat ≤ g.start.toNat

/-- Goes through footprints in the order of their starts and keeps the one that reaches furthest;
the first that starts before that one stops meets it. -/
def sweep? (furthest : Footprint) : List Footprint → Option (Footprint × Footprint)
  | [] => none
  | f :: rest =>
    if f.start.toNat < furthest.stop then some (furthest, f)
    else sweep? (if furthest.stop < f.stop then f else furthest) rest

/-- **The lowest collision.** -/
def collision? (footprints : List Footprint) : Option (Footprint × Footprint) :=
  match byStart footprints with
  | [] => none
  | first :: rest => sweep? first rest

/-- Refuses footprints that meet. -/
def checkDisjoint (footprints : List Footprint) : Except LowerError Unit :=
  match collision? footprints with
  | some (f, g) => .error (.addressCollision f.id g.id g.start)
  | none => .ok ()

end Footprint

end Microstep
