import Microstep.Json.Reader

/-!
# Reading records

A record is written as an object with one member for each field, in any order, or as the array of
its fields in the order of their declaration.  A `Shape` lists the fields of a record, the key and
the reader of each, and whether members with other keys are let pass.  The fields that were read
fill the slots of the shape; what a record is made of them, and which of them may stay empty, the
record type says itself.

Faults come in the order in which a text is read.  A member that is not of the record, or is met
the second time, is a fault where its key stands; a field that is missing is one where the object
ends.  The value of a member that is let pass is not looked at.

* `Shape` — the fields of a record; `Shape.Slots` — the values read so far;
* `Shape.readMembers`, `Shape.readItems` — the two forms;
* `Shape.record` — the reader of a record type.
-/

namespace Microstep.Json

/-- The written form of a record type with fields `F`. -/
structure Shape (F : Type) where
  /-- The type of the value of a field. -/
  Value : F → Type
  /-- The fields, in the order of their declaration. -/
  fields : List F
  /-- The key of a field. -/
  key : F → String
  /-- The reader of the value of a field. -/
  read : (f : F) → Reader (Value f)
  /-- Whether members with other keys are faults. -/
  closed : Bool

namespace Shape

variable {F α : Type} (s : Shape F)

/-- The fields read so far. -/
def Slots : Type := (f : F) → Option (s.Value f)

variable {s}

/-- No field read. -/
def Slots.empty : s.Slots := fun _ => none

/-- Fills the slot of a field. -/
def Slots.set [DecidableEq F] (slots : s.Slots) (f : F) (v : s.Value f) : s.Slots := fun g =>
  if h : f = g then some (h ▸ v) else slots g

/-- The value of a field that must be there; `absent` is the fault if it is not. -/
def Slots.require (slots : s.Slots) (absent : String → ReadFault) (f : F) :
    Except ReadFault (s.Value f) :=
  match slots f with
  | some v => .ok v
  | none => .error (absent (s.key f))

@[simp] theorem Slots.set_self [DecidableEq F] (slots : s.Slots) (f : F) (v : s.Value f) :
    slots.set f v f = some v := by
  simp [Slots.set]

theorem Slots.set_of_ne [DecidableEq F] (slots : s.Slots) {f g : F} (v : s.Value f) (h : f ≠ g) :
    slots.set f v g = slots g := by
  simp [Slots.set, h]

variable (s) [DecidableEq F]

/-- The field with the given key. -/
def field? (key : String) : Option F := s.fields.find? fun f => s.key f == key

/-- Reads the members of an object into the slots. -/
def readMembers (d : Nat) (slots : s.Slots) :
    List (Option String × Tree) → Except ReadFault s.Slots
  | [] => .ok slots
  | (none, _) :: _ => .error .unpairedSurrogate
  | (some key, t) :: rest =>
    match s.field? key with
    | some f =>
      if (slots f).isSome then .error (.duplicateField key)
      else do readMembers d (slots.set f (← s.read f d t)) rest
    | none =>
      if s.closed then .error (.unknownField key (s.fields.map s.key))
      else readMembers d slots rest

/-- Reads the elements of an array into the slots of the given fields, one after the other. -/
def readItems (d : Nat) (slots : s.Slots) : List F → List Tree → Except ReadFault s.Slots
  | _, [] => .ok slots
  | [], _ :: _ => .error .wrongLength
  | f :: fs, t :: ts => do readItems d (slots.set f (← s.read f d t)) fs ts

/-- Reads an object. -/
def object (make : (String → ReadFault) → s.Slots → Except ReadFault α) : Reader α
  | d + 1, .obj members => do make .missingField (← s.readMembers d .empty members)
  | 0, .obj _ => .error .tooDeep
  | _, _ => .error .wrongType

/-- Reads an array of the fields in the order of their declaration. -/
def array (make : (String → ReadFault) → s.Slots → Except ReadFault α) : Reader α
  | d + 1, .arr items => do make (fun _ => .wrongLength) (← s.readItems d .empty s.fields items)
  | 0, .arr _ => .error .tooDeep
  | _, _ => .error .wrongType

/-- **The reader of a record type.**  `make` builds the record from the slots; it is handed the
fault that an empty slot is in the form at hand. -/
def record (make : (String → ReadFault) → s.Slots → Except ReadFault α) : Reader α
  | d, .arr items => s.array make d (.arr items)
  | d, t => s.object make d t

end Shape

end Microstep.Json
