import Microstep.Proofs.Lowering

/-!
# Every op-step has its own address

Where the op-steps of a lowered machine lie.  Three things keep them apart, and each has its own
lemma.

**Within a state** blocks lie back to back (`Compiled.blocksAt_start`).  The addresses are words,
and the move from one block to the next stops at the last address; but the reserved slot of a state
is an address, so this never happens.

**Between states with numeric ids** it is the check for collisions (`Lowered.footprints_disjoint`).

**Around packed states** it is the floor and the reserved slots (`Lowered.reserved_slot_free`).

Put together, an address determines the op-step that lies there (`Lowered.stepAt_injective`).
-/

namespace Microstep

variable {ρ τ : Type}

/-! ## Within a state -/

/-- What is taken of a list, up to an element and up to any later one. -/
lemma sum_take_add_le {l : List Nat} {j j' w : Nat} (hjj' : j < j') (hj : l[j]? = some w) :
    (l.take j).sum + w ≤ (l.take j').sum := by
  have hsucc : (l.take (j + 1)).sum = (l.take j).sum + w := by
    rw [List.take_add_one, hj, List.sum_append, Option.toList_some, List.sum_singleton]
  have hsplit := List.take_append_drop (j + 1) (l.take j')
  rw [List.take_take, Nat.min_eq_left hjj'] at hsplit
  rw [← hsucc, ← hsplit, List.sum_append]
  exact Nat.le_add_right _ _

namespace Compiled

lemma map_width_blocksAt (f : StateId → Address) :
    ∀ (bodies : List (Body ρ)) (start : Address),
      (blocksAt f start bodies).map Block.width = bodies.map List.length
  | [], _ => rfl
  | body :: rest, start => by
      rw [blocksAt, List.map_cons, List.map_cons, map_width_blocksAt f rest, Block.width,
        List.length_map]

/-- **Blocks lie back to back**, as long as they stay among the addresses. -/
theorem blocksAt_start (f : StateId → Address) :
    ∀ {bodies : List (Body ρ)} {start : Address},
      start.toNat + (bodies.map List.length).sum < UInt32.size →
        ∀ {j : Nat} {b : Block ρ}, (blocksAt f start bodies)[j]? = some b →
          b.start.toNat = start.toNat + ((bodies.map List.length).take j).sum
            ∧ ∃ body, bodies[j]? = some body ∧ b.steps = body.map (OpStep.relabel f)
  | [], _, _, j, b, hb => by simp [blocksAt] at hb
  | body :: rest, start, hfit, j, b, hb => by
      rw [List.map_cons, List.sum_cons] at hfit
      have hnext : (start.advance body.length).toNat = start.toNat + body.length :=
        Address.toNat_advance (by omega)
      cases j with
      | zero =>
          cases hb
          exact ⟨rfl, body, rfl, rfl⟩
      | succ j =>
          have hb' : (blocksAt f (start.advance body.length) rest)[j]? = some b := hb
          obtain ⟨hstart, hbody⟩ := blocksAt_start f (by rw [hnext]; omega) hb'
          refine ⟨?_, hbody⟩
          rw [hstart, hnext, List.map_cons, List.take_succ_cons, List.sum_cons, Nat.add_assoc]

end Compiled

/-! ## State by state -/

lemma ProgramState.width_eq_sum (q : ProgramState ρ) :
    q.width = (q.blocks.map Block.width).sum := by
  rw [ProgramState.width, List.length_flatMap]
  rfl

namespace Lowered

variable {scheme : RegisterScheme ρ} {m : Machine τ} {p : Program ρ τ}

/-- The address that a label stands for in a lowered machine. -/
abbrev targets (m : Machine τ) (p : Program ρ τ) : StateId → Address :=
  Compiled.target (m.ids.zip (p.states.map ProgramState.address))

/-- A state of a lowered machine: it lies at its position, its reserved slot is an address, and its
blocks are the bodies of the source. -/
lemma state_at (h : Lowered scheme m p) {i : Nat} {s : State} {q : ProgramState ρ}
    (hs : m.states[i]? = some s) (hq : p.states[i]? = some q) :
    q.address.toNat = Placement.position m.extents i s.extent
      ∧ q.address.toNat + s.width + 1 < UInt32.size
      ∧ ∃ bodies, s.bodies scheme = .ok bodies
          ∧ q.blocks = Compiled.blocksAt (targets m p) q.address bodies := by
  obtain ⟨q', hq', bodies, hbodies, hblocks⟩ := forall₂_getElem? h.states hs
  rw [hq] at hq'
  cases hq'
  obtain ⟨a, ha, hpos, hfit⟩ :=
    (Placement.assign_eq_ok h.assign_eq).2 (Machine.getElem?_extents hs)
  rw [List.getElem?_map, hq] at ha
  cases ha
  exact ⟨hpos, hfit, bodies, hbodies, Compiled.placeBlocks_eq_ok hblocks⟩

lemma exists_source (h : Lowered scheme m p) {i : Nat} {q : ProgramState ρ}
    (hq : p.states[i]? = some q) : ∃ s, m.states[i]? = some s := by
  obtain ⟨s, hs, _⟩ := forall₂_getElem?_right h.states hq
  exact ⟨s, hs⟩

lemma exists_placed (h : Lowered scheme m p) {i : Nat} {s : State}
    (hs : m.states[i]? = some s) : ∃ q, p.states[i]? = some q := by
  obtain ⟨q, hq, _⟩ := forall₂_getElem? h.states hs
  exact ⟨q, hq⟩

/-- **A jump goes to the state that has the id.** -/
theorem exists_target (h : Lowered scheme m p) {s : State} (hs : s ∈ m.states) {t : Transition}
    (ht : t ∈ s.transitions) :
    ∃ (i : Nat) (s' : State) (q : ProgramState ρ), m.states[i]? = some s' ∧ s'.id = t.target
      ∧ p.states[i]? = some q ∧ targets m p t.target = q.address := by
  obtain ⟨k, hk⟩ := List.mem_iff_getElem?.mp hs
  obtain ⟨_, _, bodies, hbodies, hblocks⟩ := forall₂_getElem? h.states hk
  have hfound := (Compiled.placeBlocks_failsFirst _ _ bodies _).eq_nil hblocks
  rw [State.labels_bodies hbodies, Compiled.unresolved, List.map_eq_nil_iff,
    List.filter_eq_nil_iff] at hfound
  have hsome := hfound t.target (List.mem_map_of_mem ht)
  rw [Option.isNone_iff_eq_none, ← ne_eq, Option.ne_none_iff_exists'] at hsome
  obtain ⟨a, ha⟩ := hsome
  obtain ⟨before, after, hzip, _⟩ := List.lookup_eq_some_iff.mp ha
  have hmem : (t.target, a) ∈ m.ids.zip (p.states.map ProgramState.address) := by
    rw [hzip]
    exact List.mem_append_right _ List.mem_cons_self
  obtain ⟨i, hi⟩ := List.mem_iff_getElem?.mp hmem
  obtain ⟨hid, haddress⟩ := List.getElem?_zip_eq_some.mp hi
  rw [Machine.ids, List.getElem?_map, Option.map_eq_some_iff] at hid
  rw [List.getElem?_map, Option.map_eq_some_iff] at haddress
  obtain ⟨s', hs', hid⟩ := hid
  obtain ⟨q, hq, haddress⟩ := haddress
  refine ⟨i, s', q, hs', hid, hq, ?_⟩
  rw [targets, Compiled.target, ha, Option.getD_some]
  exact haddress.symm

/-- A placed state is as wide as its source says, block by block. -/
lemma map_width_blocks (h : Lowered scheme m p) {i : Nat} {s : State} {q : ProgramState ρ}
    (hs : m.states[i]? = some s) (hq : p.states[i]? = some q) :
    q.blocks.map Block.width = s.blockWidths := by
  obtain ⟨_, _, bodies, hbodies, hblocks⟩ := h.state_at hs hq
  rw [hblocks, Compiled.map_width_blocksAt, State.map_length_bodies hbodies]

lemma width_eq (h : Lowered scheme m p) {i : Nat} {s : State} {q : ProgramState ρ}
    (hs : m.states[i]? = some s) (hq : p.states[i]? = some q) : q.width = s.width := by
  rw [q.width_eq_sum, h.map_width_blocks hs hq, State.width]

/-- **A block starts after the blocks before it**, without reaching the last address. -/
theorem start_eq (h : Lowered scheme m p) {i j : Nat} {q : ProgramState ρ} {b : Block ρ}
    (hq : p.states[i]? = some q) (hb : q.blocks[j]? = some b) :
    b.start.toNat = q.address.toNat + ((q.blocks.map Block.width).take j).sum := by
  obtain ⟨s, hs⟩ := h.exists_source hq
  obtain ⟨_, hfit, bodies, hbodies, hblocks⟩ := h.state_at hs hq
  have hlengths := State.map_length_bodies hbodies
  have hwidth : (bodies.map List.length).sum = s.width := by rw [hlengths, State.width]
  rw [hblocks] at hb
  rw [h.map_width_blocks hs hq, ← hlengths]
  exact (Compiled.blocksAt_start (targets m p) (by omega) hb).1

/-- The reserved slot of a placed state is an address. -/
lemma reserved_slot_lt (h : Lowered scheme m p) {i : Nat} {q : ProgramState ρ}
    (hq : p.states[i]? = some q) : q.address.toNat + q.width + 1 < UInt32.size := by
  obtain ⟨s, hs⟩ := h.exists_source hq
  rw [h.width_eq hs hq]
  exact (h.state_at hs hq).2.1

/-- A block stops no later than its state. -/
lemma start_add_width_le (h : Lowered scheme m p) {i j : Nat} {q : ProgramState ρ} {b : Block ρ}
    (hq : p.states[i]? = some q) (hb : q.blocks[j]? = some b) :
    b.start.toNat + b.width ≤ q.address.toNat + q.width := by
  have hj : (q.blocks.map Block.width)[j]? = some b.width := by
    rw [List.getElem?_map, hb]
    rfl
  have hlt : j < (q.blocks.map Block.width).length := (List.getElem?_eq_some_iff.mp hj).1
  have hle := sum_take_add_le hlt hj
  rw [List.take_length, ← q.width_eq_sum] at hle
  rw [h.start_eq hq hb]
  omega

/-! ## Between states -/

lemma getElem?_footprints {i : Nat} {s : State} (hs : m.states[i]? = some s) :
    m.footprints[i]? = some
      { id := s.id
        start := UInt32.ofNat (Placement.position m.extents i s.extent)
        stop := Placement.position m.extents i s.extent + max s.width 1 } := by
  rw [Machine.footprints, List.getElem?_map, List.getElem?_zipIdx, Machine.getElem?_extents hs,
    Nat.zero_add]
  rfl

/-- Where addresses were assigned, footprints start at the positions of their states. -/
lemma toNat_start_footprint {addresses : List Address}
    (h : Placement.assign m.extents = .ok addresses) {i : Nat} {s : State}
    (hs : m.states[i]? = some s) :
    (UInt32.ofNat (Placement.position m.extents i s.extent)).toNat
      = Placement.position m.extents i s.extent := by
  obtain ⟨a, _, hpos, hfit⟩ := (Placement.assign_eq_ok h).2 (Machine.getElem?_extents hs)
  exact UInt32.toNat_ofNat_of_lt (by omega)

lemma exists_state_of_footprint {i : Nat} {f : Footprint} (hf : m.footprints[i]? = some f) :
    ∃ s, m.states[i]? = some s := by
  have hlt := (List.getElem?_eq_some_iff.mp hf).1
  have hlt' : i < m.states.length := by simpa [Machine.footprints, Machine.extents] using hlt
  exact ⟨m.states[i], List.getElem?_eq_getElem hlt'⟩

lemma nonempty_footprints {addresses : List Address}
    (h : Placement.assign m.extents = .ok addresses) :
    ∀ f ∈ m.footprints, f.start.toNat < f.stop := by
  intro f hf
  obtain ⟨i, hi⟩ := List.mem_iff_getElem?.mp hf
  obtain ⟨s, hs⟩ := exists_state_of_footprint hi
  rw [getElem?_footprints hs] at hi
  cases hi
  dsimp only
  rw [toNat_start_footprint h hs]
  omega

/-- **The footprints of different states are disjoint.** -/
theorem footprints_disjoint (h : Lowered scheme m p) {i i' : Nat} {q q' : ProgramState ρ}
    (hne : i ≠ i') (hq : p.states[i]? = some q) (hq' : p.states[i']? = some q') :
    q.address.toNat + max q.width 1 ≤ q'.address.toNat
      ∨ q'.address.toNat + max q'.width 1 ≤ q.address.toNat := by
  have hpair := (Footprint.collisions_eq_nil_iff (nonempty_footprints h.assign_eq)).mp
    h.collisions_eq
  obtain ⟨s, hs⟩ := h.exists_source hq
  obtain ⟨s', hs'⟩ := h.exists_source hq'
  have hdisjoint := Footprint.pairwise_disjoint_iff.mp hpair hne
    (getElem?_footprints hs) (getElem?_footprints hs')
  unfold Footprint.Disjoint at hdisjoint
  rwa [toNat_start_footprint h.assign_eq hs, toNat_start_footprint h.assign_eq hs',
    ← (h.state_at hs hq).1, ← (h.state_at hs' hq').1, ← h.width_eq hs hq,
    ← h.width_eq hs' hq'] at hdisjoint

/-- **The reserved slot of a packed state lies in no other state.** -/
theorem reserved_slot_free (h : Lowered scheme m p) {i i' : Nat} {s : State} {l : String}
    {q q' : ProgramState ρ} (hne : i ≠ i') (hs : m.states[i]? = some s)
    (hid : s.id = .symbolic l) (hq : p.states[i]? = some q) (hq' : p.states[i']? = some q') :
    q'.address.toNat + max q'.width 1 ≤ q.address.toNat + q.width
      ∨ q.address.toNat + q.width < q'.address.toNat := by
  obtain ⟨s', hs'⟩ := h.exists_source hq'
  have hsep := Placement.position_separated hne (Machine.getElem?_extents hs)
    (Machine.getElem?_extents hs') hid
  rw [← (h.state_at hs hq).1, ← (h.state_at hs' hq').1] at hsep
  have hw : s.extent.width = q.width := (h.width_eq hs hq).symm
  have hw' : s'.extent.width = q'.width := (h.width_eq hs' hq').symm
  rw [hw, hw'] at hsep
  omega

end Lowered

/-! ## Op-steps -/

/-- The op-step `k` of block `j` of state `i` is `step` and lies at the address `a`, counted without
an upper limit. -/
def Program.StepAt (p : Program ρ τ) (i j k : Nat) (step : OpStep ρ Address) (a : Nat) : Prop :=
  ∃ q b, p.states[i]? = some q ∧ q.blocks[j]? = some b ∧ b.steps[k]? = some step
    ∧ a = b.start.toNat + k

namespace Lowered

variable {scheme : RegisterScheme ρ} {m : Machine τ} {p : Program ρ τ}

/-- An op-step lies between the address of its state and the reserved slot. -/
lemma stepAt_bounds (h : Lowered scheme m p) {i j k a : Nat} {step : OpStep ρ Address}
    {q : ProgramState ρ} (hq : p.states[i]? = some q) (hstep : p.StepAt i j k step a) :
    q.address.toNat ≤ a ∧ a < q.address.toNat + q.width := by
  obtain ⟨q', b, hq', hb, hk, rfl⟩ := hstep
  rw [hq] at hq'
  cases hq'
  have hlt : k < b.width := (List.getElem?_eq_some_iff.mp hk).1
  have hstart := h.start_eq hq hb
  have hend := h.start_add_width_le hq hb
  omega

/-- **An address determines the op-step that lies there.** -/
theorem stepAt_injective (h : Lowered scheme m p) {i j k i' j' k' a : Nat}
    {step step' : OpStep ρ Address} (hstep : p.StepAt i j k step a)
    (hstep' : p.StepAt i' j' k' step' a) : i = i' ∧ j = j' ∧ k = k' := by
  have hbounds := hstep
  have hbounds' := hstep'
  obtain ⟨q, b, hq, hb, hk, ha⟩ := hstep
  obtain ⟨q', b', hq', hb', hk', ha'⟩ := hstep'
  replace hbounds := h.stepAt_bounds hq hbounds
  replace hbounds' := h.stepAt_bounds hq' hbounds'
  -- different states have disjoint footprints, and within one the blocks lie back to back
  have hi : i = i' := by
    by_contra hne
    have hdisjoint := h.footprints_disjoint hne hq hq'
    omega
  subst hi
  rw [hq] at hq'
  cases hq'
  have hlt : k < b.width := (List.getElem?_eq_some_iff.mp hk).1
  have hlt' : k' < b'.width := (List.getElem?_eq_some_iff.mp hk').1
  have hw : (q.blocks.map Block.width)[j]? = some b.width := by
    rw [List.getElem?_map, hb]
    rfl
  have hw' : (q.blocks.map Block.width)[j']? = some b'.width := by
    rw [List.getElem?_map, hb']
    rfl
  rw [h.start_eq hq hb] at ha
  rw [h.start_eq hq hb'] at ha'
  have hj : j = j' := by
    rcases Nat.lt_trichotomy j j' with hjj' | hjj' | hjj'
    · have hle := sum_take_add_le hjj' hw
      omega
    · exact hjj'
    · have hle := sum_take_add_le hjj' hw'
      omega
  subst hj
  exact ⟨rfl, rfl, by omega⟩

end Lowered

/-- **Every op-step of a lowered machine has its own address.**  It lies below the last address and
between the address of its state and the reserved slot, no other op-step lies there, states do not
overlap, and the reserved slot of a packed state lies in no other state.  Hence words are wide
enough: a block starts exactly where the ones before it stop, its width is a word, and moving on by
it does not stop at the last address. -/
theorem Machine.lower_addresses {scheme : RegisterScheme ρ} {m : Machine τ} {p : Program ρ τ}
    (h : m.lower scheme = .ok p) :
    (∀ (i j k : Nat) (step : OpStep ρ Address) (a : Nat) (q : ProgramState ρ),
      p.StepAt i j k step a → p.states[i]? = some q →
        a < UInt32.size - 1 ∧ q.address.toNat ≤ a ∧ a < q.address.toNat + q.width)
    ∧ (∀ (i j k i' j' k' : Nat) (step step' : OpStep ρ Address) (a : Nat),
        p.StepAt i j k step a → p.StepAt i' j' k' step' a → i = i' ∧ j = j' ∧ k = k')
    ∧ (∀ (i i' : Nat) (q q' : ProgramState ρ), i ≠ i' → p.states[i]? = some q →
        p.states[i']? = some q' →
        q.address.toNat + max q.width 1 ≤ q'.address.toNat
          ∨ q'.address.toNat + max q'.width 1 ≤ q.address.toNat)
    ∧ (∀ (i i' : Nat) (s : State) (l : String) (q q' : ProgramState ρ), i ≠ i' →
        m.states[i]? = some s → s.id = .symbolic l → p.states[i]? = some q →
        p.states[i']? = some q' →
          ¬ (q'.address.toNat ≤ q.address.toNat + q.width
            ∧ q.address.toNat + q.width < q'.address.toNat + max q'.width 1))
    ∧ (∀ (i j : Nat) (q : ProgramState ρ) (b : Block ρ), p.states[i]? = some q →
        q.blocks[j]? = some b →
        b.start.toNat = q.address.toNat + ((q.blocks.map Block.width).take j).sum
          ∧ (UInt32.ofNat b.width).toNat = b.width
          ∧ (b.start.advance b.width).toNat = b.start.toNat + b.width) := by
  have hlow := Machine.lower_eq_ok h
  refine ⟨?_, ?_, ?_, ?_, ?_⟩
  · intro i j k step a q hstep hq
    have hbounds := hlow.stepAt_bounds hq hstep
    have hslot := hlow.reserved_slot_lt hq
    omega
  · intro i j k i' j' k' step step' a hstep hstep'
    exact hlow.stepAt_injective hstep hstep'
  · intro i i' q q' hne hq hq'
    exact hlow.footprints_disjoint hne hq hq'
  · intro i i' s l q q' hne hs hid hq hq'
    have hfree := hlow.reserved_slot_free hne hs hid hq hq'
    omega
  · intro i j q b hq hb
    have hslot := hlow.reserved_slot_lt hq
    have hend := hlow.start_add_width_le hq hb
    refine ⟨hlow.start_eq hq hb, ?_, ?_⟩
    · exact UInt32.toNat_ofNat_of_lt (by omega)
    · exact Address.toNat_advance (by omega)

/-- A machine with a packed state above one with a numeric id and one that is empty. -/
def Machine.mixed : Machine Unit :=
  { timers := []
    states :=
      [ { id := .symbolic "start"
          statements := [.increment "X" (.leaf (.literal 1))]
          transitions := [{ condition := none, target := .numeric 100 }] },
        { id := .numeric 100
          statements := []
          transitions :=
            [{ condition := some (.leaf (.name "X")), target := .symbolic "start" }] },
        { id := .numeric 7, statements := [], transitions := [] } ] }

theorem Machine.lower_addresses_mixed :
    ∃ p, Machine.mixed.lower RegisterScheme.free = .ok p
      ∧ p.states.map ProgramState.address = [104, 100, 7]
      ∧ ∀ (i j k i' j' k' : Nat) (step step' : OpStep Register Address) (a : Nat),
          p.StepAt i j k step a → p.StepAt i' j' k' step' a → i = i' ∧ j = j' ∧ k = k' := by
  have hlower : (Machine.mixed.lower RegisterScheme.free).map
      (fun p => p.states.map ProgramState.address) = .ok [104, 100, 7] := by cbv
  cases h : Machine.mixed.lower RegisterScheme.free with
  | error e =>
      rw [h] at hlower
      cases hlower
  | ok p =>
      rw [h] at hlower
      exact ⟨p, rfl, Except.ok.inj hlower, (Machine.lower_addresses h).2.1⟩

end Microstep
