import Microstep.Proofs.Reordering

/-!
# States do not influence each other

A state is compiled on its own: the signals it raises and the temps it uses are forgotten before the
next one is compiled.  So all that two states of a machine have to do with each other is where they
lie.  `Machine.PlacedAlike m m'` says that `m'` has the states of `m` at the same indices, with the
same ids and at the same positions, whatever these states do; a state that the two machines share is
then lowered to the same op-steps (`Lowered.getElem?_placedAlike`).

Two ways to get there.

* Positions are computed from ids and widths, so machines that agree on these are placed alike
  (`Lowered.placedAlike_of_widths`).
* States with symbolic ids that are added at the end are packed behind all others and move none of
  them (`Placement.position_append`).
-/

namespace Microstep

variable {ρ τ : Type}

/-! ## Positions -/

namespace Placement

/-- Packed states do not raise the floor. -/
lemma floor_append {extents added : List Extent} (h : ∀ e ∈ added, e.id.isNumeric = false) :
    floor (extents ++ added) = floor extents := by
  have hadded : added.filterMap Extent.reach? = [] := by
    rw [List.filterMap_eq_nil_iff]
    intro e he
    have hsym := h e he
    cases hid : e.id with
    | numeric a =>
        rw [hid] at hsym
        cases hsym
    | symbolic l => exact Extent.reach?_symbolic hid
  rw [floor, floor, List.filterMap_append, hadded, List.append_nil]

/-- **Packed states at the end move no other state.** -/
theorem position_append {extents added : List Extent} (h : ∀ e ∈ added, e.id.isNumeric = false)
    {k : Nat} (hk : k ≤ extents.length) (e : Extent) :
    position (extents ++ added) k e = position extents k e := by
  rw [position, position, positionFrom, positionFrom, floor_append h,
    List.take_append_of_le_length hk]

end Placement

namespace Machine

/-! ## Machines that are placed alike -/

/-- **The states of `m` lie in `m'` where they lie in `m`.**  The other machine has states with the
same ids at the same indices and positions; they may do other things, and there may be more. -/
def PlacedAlike (m m' : Machine τ) : Prop :=
  ∀ (i : Nat) (s : State), m.states[i]? = some s →
    ∃ s', m'.states[i]? = some s' ∧ s'.id = s.id
      ∧ Placement.position m'.extents i s'.extent = Placement.position m.extents i s.extent

/-- What matters of states when they are placed is their ids and widths. -/
lemma extents_congr {m m' : Machine τ} (hids : m.ids = m'.ids)
    (hwidths : m.states.map State.width = m'.states.map State.width) : m.extents = m'.extents := by
  have hzip : ∀ m : Machine τ,
      m.extents = List.zipWith Extent.mk m.ids (m.states.map State.width) := by
    intro m
    simp [extents, ids, State.extent, List.zipWith_map]
  rw [hzip, hzip, hids, hwidths]

lemma placedAlike_of_extents {m m' : Machine τ} (h : m.extents = m'.extents) :
    m.PlacedAlike m' := by
  intro i s hs
  have hextent := getElem?_extents hs
  rw [h] at hextent
  obtain ⟨s', hs', heq⟩ := exists_state_of_extent hextent
  have hid : s'.id = s.id := congrArg Extent.id heq
  exact ⟨s', hs', hid, by rw [heq, h]⟩

/-- **Packed states at the end leave all others where they are.** -/
lemma placedAlike_append (m : Machine τ) {added : List State}
    (h : ∀ s ∈ added, s.id.isNumeric = false) :
    m.PlacedAlike { m with states := m.states ++ added } := by
  intro i s hs
  have hlt : i < m.states.length := (List.getElem?_eq_some_iff.mp hs).1
  refine ⟨s, by rw [List.getElem?_append_left hlt, hs], rfl, ?_⟩
  have hadded : ∀ e ∈ added.map State.extent, e.id.isNumeric = false := by
    simpa [State.extent] using h
  have hle : i ≤ m.extents.length := by
    rw [extents, List.length_map]
    exact hlt.le
  rw [← Placement.position_append hadded hle]
  simp [extents]

end Machine

/-! ## What shared states are lowered to -/

namespace Lowered

variable {scheme : RegisterScheme ρ} {m m' : Machine τ} {p p' : Program ρ τ}

/-- A program has the widths of its machine. -/
lemma map_width_states (h : Lowered scheme m p) :
    p.states.map ProgramState.width = m.states.map State.width := by
  refine List.ext_getElem? fun i => ?_
  rw [List.getElem?_map, List.getElem?_map]
  cases hs : m.states[i]? with
  | none =>
      have hq : p.states[i]? = none := by
        rw [List.getElem?_eq_none_iff] at hs ⊢
        rwa [← h.states.length_eq]
      rw [hq]
      rfl
  | some s =>
      obtain ⟨q, hq⟩ := h.exists_placed hs
      rw [hq, Option.map_some, Option.map_some, h.width_eq hs hq]

lemma placedAlike_of_widths (h : Lowered scheme m p) (h' : Lowered scheme m' p')
    (hids : m.ids = m'.ids)
    (hwidths : p.states.map ProgramState.width = p'.states.map ProgramState.width) :
    m.PlacedAlike m' := by
  rw [h.map_width_states, h'.map_width_states] at hwidths
  exact Machine.placedAlike_of_extents (Machine.extents_congr hids hwidths)

/-- An id that a state of the one machine jumps to stands for the same address in the other. -/
lemma targets_placedAlike (h : Lowered scheme m p) (h' : Lowered scheme m' p')
    (halike : m.PlacedAlike m') {s : State} (hs : s ∈ m.states) {t : Transition}
    (ht : t ∈ s.transitions) : targets m' p' t.target = targets m p t.target := by
  obtain ⟨j, goal, q, hgoal, hid, hq, htarget⟩ := h.exists_target hs ht
  obtain ⟨goal', hgoal', hid', hposition⟩ := halike j goal hgoal
  obtain ⟨q', hq'⟩ := h'.exists_placed hgoal'
  have haddress : q'.address.toNat = q.address.toNat := by
    rw [(h'.state_at hgoal' hq').1, (h.state_at hgoal hq).1, hposition]
  rw [htarget, ← hid, ← hid', h'.targets_id hgoal' hq']
  exact UInt32.toNat_inj.mp haddress

/-- **A state that two machines share is lowered to the same op-steps**, if they are placed
alike. -/
theorem getElem?_placedAlike (h : Lowered scheme m p) (h' : Lowered scheme m' p')
    (halike : m.PlacedAlike m') {i : Nat} {s : State} (hs : m.states[i]? = some s)
    (hs' : m'.states[i]? = some s) : p'.states[i]? = p.states[i]? := by
  obtain ⟨q, hq⟩ := h.exists_placed hs
  obtain ⟨q', hq'⟩ := h'.exists_placed hs'
  obtain ⟨s'', hs'', _, hposition⟩ := halike i s hs
  rw [hs'] at hs''
  cases hs''
  rw [hq, hq', h.placed_eq h' hs hs' hq hq' hposition fun t ht =>
    h.targets_placedAlike h' halike (List.mem_of_getElem? hs) ht]

end Lowered

namespace Machine

/-- **States do not influence each other.**  Take two machines that are lowered, with the same ids
and the same widths in the same order; a state that they share is lowered to the same program state,
whatever the states around it raise, compute and jump to.  And if states with symbolic ids are added
at the end of a machine, its own states are lowered to what they were lowered to without them. -/
theorem lower_noninterference (scheme : RegisterScheme ρ) :
    (∀ (m m' : Machine τ) (p p' : Program ρ τ), m.lower scheme = .ok p →
      m'.lower scheme = .ok p' → m.ids = m'.ids →
      p.states.map ProgramState.width = p'.states.map ProgramState.width →
        p.states.length = m.states.length ∧ p'.states.length = m'.states.length
          ∧ ∀ i : Nat, m.states[i]? = m'.states[i]? → p.states[i]? = p'.states[i]?)
    ∧ ∀ (m : Machine τ) (added : List State) (p p' : Program ρ τ),
        (∀ s ∈ added, s.id.isNumeric = false) → m.lower scheme = .ok p →
        ({ m with states := m.states ++ added } : Machine τ).lower scheme = .ok p' →
          p.states.length = m.states.length ∧ p'.states.take m.states.length = p.states := by
  constructor
  · intro m m' p p' hp hp' hids hwidths
    have hlow := lower_eq_ok hp
    have hlow' := lower_eq_ok hp'
    refine ⟨hlow.states.length_eq.symm, hlow'.states.length_eq.symm, fun i heq => ?_⟩
    have halike := hlow.placedAlike_of_widths hlow' hids hwidths
    cases hs : m.states[i]? with
    | some s => exact (hlow.getElem?_placedAlike hlow' halike hs (heq.symm.trans hs)).symm
    | none =>
        have hnone : m'.states[i]? = none := heq.symm.trans hs
        rw [List.getElem?_eq_none_iff] at hs hnone
        rw [hlow.states.length_eq] at hs
        rw [hlow'.states.length_eq] at hnone
        rw [List.getElem?_eq_none hs, List.getElem?_eq_none hnone]
  · intro m added p p' hadded hp hp'
    have hlow := lower_eq_ok hp
    have hlow' := lower_eq_ok hp'
    have hlength : p.states.length = m.states.length := hlow.states.length_eq.symm
    refine ⟨hlength, List.ext_getElem? fun i => ?_⟩
    rcases Nat.lt_or_ge i m.states.length with hi | hi
    · have hs : m.states[i]? = some m.states[i] := List.getElem?_eq_getElem hi
      have hs' : (m.states ++ added)[i]? = some m.states[i] := by
        rw [List.getElem?_append_left hi, hs]
      rw [List.getElem?_take_of_lt hi]
      exact hlow.getElem?_placedAlike hlow' (m.placedAlike_append hadded) hs hs'
    · rw [List.getElem?_take_eq_none hi, List.getElem?_eq_none (hlength.le.trans hi)]

/-- A state that raises a counter and jumps to another state, which is left open. -/
def beside (other : State) : Machine Unit :=
  { timers := []
    states :=
      [ { id := .symbolic "main"
          statements := [.increment "X" (.leaf (.literal 1))]
          transitions :=
            [ { condition := some (.leaf (.name "X")), target := .numeric 30 },
              { condition := none, target := .symbolic "main" } ] },
        other ] }

/-- Another state that raises a counter too. -/
def raising : State :=
  { id := .numeric 30
    statements := [.increment "Y" (.leaf (.name "X"))]
    transitions := [{ condition := none, target := .symbolic "main" }] }

/-- One that computes, and is as wide. -/
def comparing : State :=
  { id := .numeric 30
    statements := []
    transitions :=
      [ { condition :=
            some (.node (.node (.leaf (.name "X")) .add (.leaf (.name "INT_A"))) .gt
              (.leaf (.literal 3)))
          target := .numeric 30 } ] }

/-- A state that is added at the end. -/
def spare : State :=
  { id := .symbolic "spare"
    statements := [.increment "X" (.leaf (.literal 2))]
    transitions := [{ condition := none, target := .symbolic "main" }] }

theorem lower_noninterference_beside :
    ∃ p p' p'', (beside raising).lower RegisterScheme.free = .ok p
      ∧ (beside comparing).lower RegisterScheme.free = .ok p'
      ∧ ({ beside raising with states := (beside raising).states ++ [spare] } : Machine Unit).lower
          RegisterScheme.free = .ok p''
      ∧ p.states[0]? = p'.states[0]? ∧ p''.states.take 2 = p.states := by
  have hlower : (fun p => p.states.map ProgramState.width)
      <$> (beside raising).lower RegisterScheme.free = .ok [7, 4] := by cbv
  have hlower' : (fun p => p.states.map ProgramState.width)
      <$> (beside comparing).lower RegisterScheme.free = .ok [7, 4] := by cbv
  have hlower'' : (fun p => p.states.map ProgramState.width)
      <$> ({ beside raising with states := (beside raising).states ++ [spare] } :
        Machine Unit).lower RegisterScheme.free = .ok [7, 4, 4] := by cbv
  obtain ⟨p, hp, hwidths⟩ := map_eq_ok_iff.mp hlower
  obtain ⟨p', hp', hwidths'⟩ := map_eq_ok_iff.mp hlower'
  obtain ⟨p'', hp'', _⟩ := map_eq_ok_iff.mp hlower''
  obtain ⟨hshared, hadded⟩ := lower_noninterference (τ := Unit) RegisterScheme.free
  exact ⟨p, p', p'', hp, hp', hp'',
    (hshared _ _ p p' hp hp' rfl (hwidths.trans hwidths'.symm)).2.2 0 rfl,
    (hadded _ [spare] p p'' (by decide) hp hp'').2⟩

end Machine

end Microstep
