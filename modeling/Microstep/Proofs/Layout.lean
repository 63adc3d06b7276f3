import Microstep.Proofs.Addresses

/-!
# The layout of a lowered machine

Where the states and blocks of a program lie, and how wide they are, can be told before lowering.
The layout that a machine announces is computed from its source alone: widths come from the shape of
conditions (`State.blockWidths`), and addresses from ids and widths.

* `Program.layout` — the layout of a program, as it is;
* `Machine.layout` — the layout of a machine, as its source tells it;
* `Machine.lower_layout` — they are the same, whatever the registers are called.

The announced addresses are written without passes and cursors: packing starts one past the furthest
state with a numeric id (`Machine.packingBase`), and a packed state lies above the packed states in
front of it (`Machine.announced`).
-/

namespace Microstep

variable {ρ τ : Type}

/-- Where a block lies. -/
structure BlockLayout where
  start : Nat
  width : Nat
  deriving DecidableEq, Repr

/-- Where a state and its blocks lie. -/
structure StateLayout where
  address : Nat
  blocks : List BlockLayout
  deriving DecidableEq, Repr

/-! ## The layout of a program -/

def Block.layout (b : Block ρ) : BlockLayout := { start := b.start.toNat, width := b.width }

def ProgramState.layout (q : ProgramState ρ) : StateLayout :=
  { address := q.address.toNat, blocks := q.blocks.map Block.layout }

/-- **The layout of a program.** -/
def Program.layout (p : Program ρ τ) : List StateLayout := p.states.map ProgramState.layout

/-! ## The layout that a source announces -/

/-- Blocks of the widths of the state, back to back from an address. -/
def State.layoutAt (s : State) (address : Nat) : StateLayout :=
  { address
    blocks := s.blockWidths.zipIdx.map fun x =>
      { start := address + (s.blockWidths.take x.2).sum, width := x.1 } }

namespace Machine

/-- Where the states with numeric ids stop. -/
def fixedStops (m : Machine τ) : List Nat :=
  m.states.filterMap fun s => s.id.address?.map fun a => a.toNat + s.width

/-- **Where packing starts**: at the first address if there is no numeric id, and otherwise one past
the furthest state that has one. -/
def packingBase (m : Machine τ) : Nat := (m.fixedStops.max?.map fun stop => 1 + stop).getD 0

/-- What the packed states in front of index `i` take up, with their reserved slots. -/
def packedBefore (m : Machine τ) (i : Nat) : Nat :=
  (((m.states.take i).filter fun s => !s.id.isNumeric).map fun s => s.width + 1).sum

/-- **The address of the state at index `i`**: its id if that is numeric, and otherwise above what is
packed in front of it. -/
def announced (m : Machine τ) (i : Nat) (s : State) : Nat :=
  match s.id with
  | .numeric a => a.toNat
  | .symbolic _ => m.packingBase + m.packedBefore i

/-- **The layout of a machine**, as its source tells it. -/
def layout (m : Machine τ) : List StateLayout :=
  m.states.zipIdx.map fun x => x.1.layoutAt (m.announced x.2 x.1)

/-! ## The announced addresses are the assigned ones -/

lemma filterMap_reach?_extents (m : Machine τ) :
    m.extents.filterMap Extent.reach? = m.fixedStops.map fun stop => 1 + stop := by
  rw [extents, fixedStops, List.filterMap_map, List.map_filterMap]
  refine List.filterMap_congr fun s _ => ?_
  simp [Extent.reach?, State.extent, Function.comp_def, Nat.add_comm 1]

/-- Adding one commutes with taking the largest. -/
lemma max?_map_add_one (l : List Nat) :
    (l.map fun n => 1 + n).max? = l.max?.map fun n => 1 + n := by
  induction l with
  | nil => rfl
  | cons n l ih =>
      rw [List.map_cons, List.max?_cons, List.max?_cons, ih]
      cases l.max? with
      | none => rfl
      | some k => simp [Nat.add_max_add_left]

lemma floor_extents (m : Machine τ) : Placement.floor m.extents = m.packingBase := by
  rw [Placement.floor, filterMap_reach?_extents, max?_map_add_one, packingBase]

lemma packed_take_extents (m : Machine τ) (i : Nat) :
    Placement.packed (m.extents.take i) = m.packedBefore i := by
  rw [Placement.packed, packedBefore, extents, ← List.map_take, List.filter_map, List.map_map]
  rfl

/-- A state lies where it is announced. -/
lemma position_extents (m : Machine τ) (i : Nat) (s : State) :
    Placement.position m.extents i s.extent = m.announced i s := by
  rw [Placement.position, Placement.positionFrom, floor_extents, packed_take_extents]
  rfl

end Machine

/-! ## Lowered machines have the layout announced -/

namespace Lowered

variable {scheme : RegisterScheme ρ} {m : Machine τ} {p : Program ρ τ}

lemma blocks_layout (h : Lowered scheme m p) {i : Nat} {s : State} {q : ProgramState ρ}
    (hs : m.states[i]? = some s) (hq : p.states[i]? = some q) :
    q.layout = s.layoutAt q.address.toNat := by
  have hwidths := h.map_width_blocks hs hq
  rw [ProgramState.layout, State.layoutAt]
  congr 1
  refine List.ext_getElem? fun j => ?_
  have hj : s.blockWidths[j]? = q.blocks[j]?.map Block.width := by
    rw [← hwidths, List.getElem?_map]
  rw [List.getElem?_map, List.getElem?_map, List.getElem?_zipIdx, hj, Nat.zero_add]
  cases hb : q.blocks[j]? with
  | none => rfl
  | some b =>
      have hstart := h.start_eq hq hb
      simp [Block.layout, hstart, hwidths]

/-- **A state of a lowered machine lies where the source says**, and so do its blocks. -/
theorem state_layout (h : Lowered scheme m p) {i : Nat} {s : State} {q : ProgramState ρ}
    (hs : m.states[i]? = some s) (hq : p.states[i]? = some q) :
    q.layout = s.layoutAt (m.announced i s) := by
  rw [h.blocks_layout hs hq, (h.state_at hs hq).1, Machine.position_extents]

theorem layout_eq (h : Lowered scheme m p) : p.layout = m.layout := by
  refine List.ext_getElem? fun i => ?_
  rw [Program.layout, Machine.layout, List.getElem?_map, List.getElem?_map,
    List.getElem?_zipIdx, Nat.zero_add]
  cases hs : m.states[i]? with
  | none =>
      -- as many states as in the source
      have hlen : p.states[i]? = none := by
        rw [List.getElem?_eq_none_iff] at hs ⊢
        rwa [← h.states.length_eq]
      simp [hlen]
  | some s =>
      obtain ⟨q, hq⟩ := h.exists_placed hs
      simp [hq, h.state_layout hs hq]

end Lowered

/-- **The layout of a lowered machine is the one its source announces**, and the timers are handed
on.  State by state and block by block, addresses, starts and widths are read off ids, statements and
the shapes of conditions; neither the registers nor the operators matter. -/
theorem Machine.lower_layout {scheme : RegisterScheme ρ} {m : Machine τ} {p : Program ρ τ}
    (h : m.lower scheme = .ok p) : p.timers = m.timers ∧ p.layout = m.layout := by
  have hlow := Machine.lower_eq_ok h
  exact ⟨hlow.timers_eq, hlow.layout_eq⟩

/-- Numeric and symbolic ids in turn, with conditions of several shapes. -/
def Machine.staggered : Machine Bool :=
  { timers := [true]
    states :=
      [ { id := .symbolic "first"
          statements := [.increment "X" (.leaf (.literal 1)), .increment "Y" (.leaf (.name "X"))]
          transitions :=
            [ { condition :=
                  some (.node (.node (.leaf (.name "X")) .rem (.leaf (.literal 3))) .eq
                    (.node (.leaf (.name "Y")) .sub (.leaf (.literal 1))))
                target := .numeric 20 },
              { condition := none, target := .symbolic "last" } ] },
        { id := .numeric 20, statements := [], transitions := [] },
        { id := .symbolic "last"
          statements := []
          transitions :=
            [{ condition := some (.leaf (.name "Z")), target := .symbolic "first" }] },
        { id := .numeric 4
          statements := [.increment "Z" (.leaf (.literal 2))]
          transitions := [] } ] }

theorem Machine.lower_layout_staggered :
    ∃ p, Machine.staggered.lower RegisterScheme.free = .ok p ∧ p.timers = [true]
      ∧ p.layout =
        [ { address := 21
            blocks := [⟨21, 2⟩, ⟨23, 2⟩, ⟨25, 5⟩, ⟨30, 2⟩] },
          { address := 20, blocks := [] },
          { address := 33, blocks := [⟨33, 3⟩] },
          { address := 4, blocks := [⟨4, 2⟩] } ] := by
  have hlower : (Machine.staggered.lower RegisterScheme.free).isOk = true := by cbv
  cases h : Machine.staggered.lower RegisterScheme.free with
  | error e =>
      rw [h] at hlower
      cases hlower
  | ok p =>
      obtain ⟨htimers, hlayout⟩ := Machine.lower_layout h
      refine ⟨p, rfl, htimers, ?_⟩
      rw [hlayout]
      decide

end Microstep
