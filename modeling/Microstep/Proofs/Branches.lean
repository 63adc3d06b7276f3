import Microstep.Proofs.Addresses

/-!
# Where branches go

A branch of a program names an address, a transition of a machine names an id.  Nothing is lost on
the way from one to the other: ids are declared once (`Lowered.nodup_ids`), different states have
different addresses (`Lowered.address_injective`), and the address in a branch is that of the state
with the id (`Lowered.exists_target`).

Branches stand nowhere but at the ends of the blocks of transitions.  The block of a statement has
none (`Lowered.statement_block`); the block of a transition has one, alone in the last op-step
(`Lowered.transition_block`).

An id that no state declares is no address either: a jump to it keeps the machine from being lowered,
even if a packed state happens to lie at that number.
-/

namespace Microstep

variable {ρ τ κ κ' : Type}

/-! ## Ids are declared once -/

namespace StateId

lemma repeatsAfter_eq_nil_iff {ids : List StateId} :
    ∀ {seen : List StateId},
      repeatsAfter seen ids = [] ↔ ids.Nodup ∧ ∀ id ∈ ids, id ∉ seen := by
  induction ids with
  | nil => simp [repeatsAfter]
  | cons id ids ih =>
      intro seen
      by_cases hid : id ∈ seen
      · simp [repeatsAfter, hid]
      · simp only [repeatsAfter, hid, if_false, ih, List.nodup_cons, List.mem_cons,
          forall_eq_or_imp, not_or]
        constructor
        · rintro ⟨hnodup, hnew⟩
          exact ⟨⟨fun hmem => (hnew id hmem).1 rfl, hnodup⟩, not_false, fun x hx => (hnew x hx).2⟩
        · rintro ⟨⟨hnot, hnodup⟩, _, hnew⟩
          refine ⟨hnodup, fun x hx => ⟨?_, hnew x hx⟩⟩
          rintro rfl
          exact hnot hx

/-- No id is met again exactly when every id stands once. -/
lemma repeats_eq_nil_iff {ids : List StateId} : repeats ids = [] ↔ ids.Nodup := by
  simp [repeats, repeatsAfter_eq_nil_iff]

end StateId

namespace Lowered

variable {scheme : RegisterScheme ρ} {m : Machine τ} {p : Program ρ τ}

/-- **The ids of a lowered machine are different.** -/
theorem nodup_ids (h : Lowered scheme m p) : m.ids.Nodup := by
  have hrepeats := (Placement.assign_failsFirst m.extents).eq_nil h.assign_eq
  rw [Placement.faults, List.append_eq_nil_iff, List.map_eq_nil_iff, Machine.map_id_extents]
    at hrepeats
  exact StateId.repeats_eq_nil_iff.mp hrepeats.1

/-- **Different states lie at different addresses.** -/
theorem address_injective (h : Lowered scheme m p) {i j : Nat} {q q' : ProgramState ρ}
    (hq : p.states[i]? = some q) (hq' : p.states[j]? = some q') (heq : q.address = q'.address) :
    i = j := by
  by_contra hne
  have hdisjoint := h.footprints_disjoint hne hq hq'
  rw [heq] at hdisjoint
  omega

/-- **An id stands for the address of its state.** -/
lemma targets_id (h : Lowered scheme m p) {i : Nat} {s : State} {q : ProgramState ρ}
    (hs : m.states[i]? = some s) (hq : p.states[i]? = some q) : targets m p s.id = q.address := by
  have hlen : (p.states.map ProgramState.address).length = m.ids.length := by
    rw [List.length_map, Machine.ids, List.length_map, h.states.length_eq]
  have hid : m.ids[i]? = some s.id := Machine.getElem?_ids hs
  cases ha : (m.ids.zip (p.states.map ProgramState.address)).lookup s.id with
  | none =>
      exact absurd (List.mem_of_getElem? hid) ((Machine.lookup_zip_eq_none_iff hlen).mp ha)
  | some a =>
      -- the id is found at one index only, since no other state has it
      obtain ⟨before, after, hzip, _⟩ := List.lookup_eq_some_iff.mp ha
      have hmem : (s.id, a) ∈ m.ids.zip (p.states.map ProgramState.address) := by simp [hzip]
      obtain ⟨k, hk⟩ := List.mem_iff_getElem?.mp hmem
      obtain ⟨hidk, haddress⟩ := List.getElem?_zip_eq_some.mp hk
      have hlt : i < m.ids.length := (List.getElem?_eq_some_iff.mp hid).1
      obtain rfl : i = k := (List.getElem?_inj hlt h.nodup_ids).mp (hid.trans hidk.symm)
      rw [List.getElem?_map, hq] at haddress
      rw [targets, Compiled.target, ha]
      exact (Option.some.inj haddress).symm

end Lowered

/-! ## Branches of bodies -/

/-- An op-step in which nothing branches. -/
def OpStep.Straight (step : OpStep ρ κ) : Prop := ∀ r target, .branch r target ∉ step

lemma OpStep.straight_of_labels {step : OpStep ρ κ} (h : step.labels = []) : step.Straight := by
  intro r target hmem
  have hlabel : target ∈ step.labels := List.mem_flatMap.mpr ⟨_, hmem, by simp [MicroOp.label?]⟩
  rw [h] at hlabel
  cases hlabel

/-- Other targets do not make an op-step branch. -/
lemma OpStep.Straight.relabel {step : OpStep ρ κ} (h : step.Straight) (f : κ → κ') :
    (step.relabel f).Straight := by
  intro r target hmem
  obtain ⟨op, hop, heq⟩ := List.mem_map.mp hmem
  cases op with
  | openGuard => cases heq
  | compute c => cases heq
  | branch r' label => exact h r' label hop

lemma Body.straight_of_labels {body : Body ρ} (h : body.labels = []) :
    ∀ step ∈ body, OpStep.Straight step := by
  intro step hstep
  rw [Body.labels, List.flatMap_eq_nil_iff] at h
  exact OpStep.straight_of_labels (h step hstep)

/-- **A transition branches at its end**, and nowhere else. -/
theorem Transition.body_ends {scheme : RegisterScheme ρ} {raised : List String} {t : Transition}
    {body : Body ρ} (h : t.body scheme raised = .ok body) :
    ∃ (front : Body ρ) (r : ρ), body = front ++ [[.branch r t.target]]
      ∧ ∀ step ∈ front, OpStep.Straight step := by
  rcases Transition.body_eq_ok_iff.mp h with ⟨_, rfl⟩ | ⟨c, _, _, rfl⟩
  · exact ⟨[[.openGuard]], scheme.guard, rfl, Body.straight_of_labels rfl⟩
  · cases c with
    | leaf o =>
        refine ⟨[[.openGuard], [.compute _]], scheme.temp 0, rfl, ?_⟩
        exact Body.straight_of_labels rfl
    | node l op r =>
        -- the op-steps of the operands, then the outermost operation, then the gate
        set left := l.reduce scheme (scheme.read raised) 0 with hleft
        set right := r.reduce scheme (scheme.read raised) left.issued with hright
        set node := Reduction.combine scheme op left right with hnode
        refine ⟨node.before.map (fun c => [.compute c])
          ++ [[.compute node.compute, .openGuard],
              [.compute
                { left := .name (scheme.temp node.out)
                  right := .name scheme.guard
                  operator := .mul
                  countFromInput := none
                  out := scheme.temp node.out }]], scheme.temp node.out, ?_, ?_⟩
        · simp [Transition.conditional, Transition.gated, ← hleft, ← hright, ← hnode]
        · refine Body.straight_of_labels ?_
          rw [Body.labels_map_compute]
          rfl

/-! ## Branches of blocks -/

lemma Compiled.map_steps_blocksAt (f : StateId → Address) :
    ∀ (bodies : List (Body ρ)) (start : Address),
      (blocksAt f start bodies).map Block.steps = bodies.map (List.map (OpStep.relabel f))
  | [], _ => rfl
  | body :: rest, start => by
      rw [blocksAt, List.map_cons, List.map_cons, map_steps_blocksAt f rest]

namespace Lowered

variable {scheme : RegisterScheme ρ} {m : Machine τ} {p : Program ρ τ}

/-- The blocks of a state: those of its statements, then those of its transitions, each with the
op-steps of its body. -/
lemma map_steps_blocks (h : Lowered scheme m p) {i : Nat} {s : State} {q : ProgramState ρ}
    (hs : m.states[i]? = some s) (hq : p.states[i]? = some q) :
    ∃ statements transitions : List (Body ρ),
      Statement.bodies scheme [] s.statements = .ok statements
        ∧ s.transitions.mapM (Transition.body scheme (s.statements.map Statement.out))
            = .ok transitions
        ∧ statements.length = s.statements.length
        ∧ q.blocks.map Block.steps
            = (statements ++ transitions).map (List.map (OpStep.relabel (targets m p))) := by
  obtain ⟨_, _, bodies, hbodies, hblocks⟩ := h.state_at hs hq
  obtain ⟨statements, transitions, hstatements, htransitions, rfl⟩ :=
    State.bodies_eq_ok_iff.mp hbodies
  refine ⟨statements, transitions, hstatements, htransitions, ?_, ?_⟩
  · simpa using congrArg List.length (Statement.map_length_bodies hstatements)
  · rw [hblocks, Compiled.map_steps_blocksAt]

/-- **The block of a statement does not branch.** -/
theorem statement_block (h : Lowered scheme m p) {i j : Nat} {s : State} {q : ProgramState ρ}
    {b : Block ρ} (hs : m.states[i]? = some s) (hq : p.states[i]? = some q)
    (hb : q.blocks[j]? = some b) (hj : j < s.statements.length) :
    ∀ step ∈ b.steps, OpStep.Straight step := by
  obtain ⟨statements, transitions, hstatements, _, hlen, hblocks⟩ := h.map_steps_blocks hs hq
  have hget := congrArg (·[j]?) hblocks
  rw [List.getElem?_map, hb, List.getElem?_map, List.getElem?_append_left (by omega),
    Option.map_some, eq_comm, Option.map_eq_some_iff] at hget
  obtain ⟨body, hbody, hsteps⟩ := hget
  have hlabels := Statement.labels_bodies hstatements
  rw [List.flatMap_eq_nil_iff] at hlabels
  intro step hstep
  rw [← hsteps] at hstep
  obtain ⟨source, hsource, rfl⟩ := List.mem_map.mp hstep
  have hstraight := Body.straight_of_labels (hlabels body (List.mem_of_getElem? hbody))
  exact (hstraight source hsource).relabel _

/-- **The block of a transition branches in its last op-step**, to the address of the target. -/
theorem transition_block (h : Lowered scheme m p) {i k : Nat} {s : State} {q : ProgramState ρ}
    {t : Transition} (hs : m.states[i]? = some s) (hq : p.states[i]? = some q)
    (ht : s.transitions[k]? = some t) :
    ∃ (b : Block ρ) (front : List (OpStep ρ Address)) (r : ρ),
      q.blocks[s.statements.length + k]? = some b
      ∧ b.steps = front ++ [[.branch r (targets m p t.target)]]
      ∧ ∀ step ∈ front, OpStep.Straight step := by
  obtain ⟨statements, transitions, _, htransitions, hlen, hblocks⟩ := h.map_steps_blocks hs hq
  rw [mapM_eq_ok_iff] at htransitions
  obtain ⟨body, hbody, hcompiled⟩ := forall₂_getElem? htransitions ht
  obtain ⟨front, r, rfl, hstraight⟩ := Transition.body_ends hcompiled
  have hget := congrArg (·[s.statements.length + k]?) hblocks
  rw [List.getElem?_map, List.getElem?_map, List.getElem?_append_right (by omega), hlen,
    Nat.add_sub_cancel_left, hbody, Option.map_some, Option.map_eq_some_iff] at hget
  obtain ⟨b, hb, hsteps⟩ := hget
  refine ⟨b, front.map (OpStep.relabel (targets m p)), r, hb, ?_, ?_⟩
  · rw [hsteps, List.map_append]
    rfl
  · intro step hstep
    obtain ⟨source, hsource, rfl⟩ := List.mem_map.mp hstep
    exact (hstraight source hsource).relabel _

/-- The blocks of a state are as many as its statements and transitions. -/
lemma length_blocks (h : Lowered scheme m p) {i : Nat} {s : State} {q : ProgramState ρ}
    (hs : m.states[i]? = some s) (hq : p.states[i]? = some q) :
    q.blocks.length = s.statements.length + s.transitions.length := by
  have hwidths := congrArg List.length (h.map_width_blocks hs hq)
  simpa [State.blockWidths] using hwidths

/-- An op-step that branches ends the block of a transition, and does nothing else. -/
theorem branch_ends_block (h : Lowered scheme m p) {i j k : Nat} {q : ProgramState ρ}
    {b : Block ρ} {step : OpStep ρ Address} {r : ρ} {a : Address}
    (hq : p.states[i]? = some q) (hb : q.blocks[j]? = some b) (hstep : b.steps[k]? = some step)
    (hbranch : .branch r a ∈ step) :
    ∃ (s : State) (n : Nat), m.states[i]? = some s ∧ n < s.transitions.length
      ∧ j = s.statements.length + n ∧ k + 1 = b.width ∧ step = [.branch r a] := by
  obtain ⟨s, hs⟩ := h.exists_source hq
  have hlt : j < q.blocks.length := (List.getElem?_eq_some_iff.mp hb).1
  rw [h.length_blocks hs hq] at hlt
  have hle : s.statements.length ≤ j := by
    by_contra hj
    have hstraight := h.statement_block hs hq hb (by omega)
    exact hstraight step (List.mem_of_getElem? hstep) r a hbranch
  obtain ⟨n, rfl⟩ := Nat.exists_eq_add_of_le hle
  have hn : n < s.transitions.length := by omega
  obtain ⟨b', front, r', hb', hsteps, hstraight⟩ :=
    h.transition_block hs hq (List.getElem?_eq_getElem hn)
  rw [hb] at hb'
  cases hb'
  refine ⟨s, n, hs, hn, rfl, ?_⟩
  rw [Block.width, hsteps]
  rw [hsteps] at hstep
  -- an op-step of the front does not branch, so this is the one behind it
  have hk : ¬ k < front.length := by
    intro hk
    rw [List.getElem?_append_left hk] at hstep
    exact hstraight step (List.mem_of_getElem? hstep) r a hbranch
  rw [List.getElem?_append_right (by omega), List.getElem?_singleton] at hstep
  split_ifs at hstep with hzero
  cases hstep
  rw [List.mem_singleton] at hbranch
  exact ⟨by simp; omega, by rw [hbranch]⟩

end Lowered

/-- **Branches go to the states that the transitions name.**  In a lowered machine every state has
its place, and exactly one state has the id that a transition names; the block of the transition
ends with an op-step that only branches, to the address of that state, and no other state has that
address.  There are no other branches.  A machine with a jump to an id that no state has is not
lowered, whatever lies at the address of that number. -/
theorem Machine.lower_branches (scheme : RegisterScheme ρ) (m : Machine τ) :
    (∀ p : Program ρ τ, m.lower scheme = .ok p →
      (∀ (i : Nat) (s : State), m.states[i]? = some s → ∃ q : ProgramState ρ,
        p.states[i]? = some q ∧ ∀ (k : Nat) (t : Transition), s.transitions[k]? = some t →
          ∃ (j : Nat) (goal : ProgramState ρ) (b : Block ρ) (r : ρ),
            (∀ j', m.ids[j']? = some t.target ↔ j' = j)
              ∧ p.states[j]? = some goal
              ∧ (∀ (j' : Nat) (q' : ProgramState ρ), p.states[j']? = some q' →
                  (q'.address = goal.address ↔ j' = j))
              ∧ q.blocks[s.statements.length + k]? = some b
              ∧ b.steps.getLast? = some [.branch r goal.address])
      ∧ ∀ (i j k : Nat) (q : ProgramState ρ) (b : Block ρ) (step : OpStep ρ Address) (r : ρ)
          (a : Address), p.states[i]? = some q → q.blocks[j]? = some b →
          b.steps[k]? = some step → .branch r a ∈ step →
            ∃ (s : State) (n : Nat), m.states[i]? = some s ∧ n < s.transitions.length
              ∧ j = s.statements.length + n ∧ k + 1 = b.width ∧ step = [.branch r a])
    ∧ ((∃ s ∈ m.states, ∃ t ∈ s.transitions, t.target ∉ m.ids) →
        ∃ e, m.lower scheme = .error e) := by
  refine ⟨fun p hp => ?_, ?_⟩
  · have hlow := Machine.lower_eq_ok hp
    refine ⟨?_, ?_⟩
    · intro i s hs
      obtain ⟨q, hq⟩ := hlow.exists_placed hs
      refine ⟨q, hq, fun k t ht => ?_⟩
      obtain ⟨b, front, r, hb, hsteps, _⟩ := hlow.transition_block hs hq ht
      obtain ⟨j, s', goal, hs', hid, hgoal, htarget⟩ :=
        hlow.exists_target (List.mem_of_getElem? hs) (List.mem_of_getElem? ht)
      have hj : m.ids[j]? = some t.target := by rw [Machine.ids, List.getElem?_map, hs', ← hid]; rfl
      refine ⟨j, goal, b, r, ?_, hgoal, ?_, hb, ?_⟩
      · intro j'
        constructor
        · intro hj'
          have hlt : j' < m.ids.length := (List.getElem?_eq_some_iff.mp hj').1
          exact (List.getElem?_inj hlt hlow.nodup_ids).mp (hj'.trans hj.symm)
        · rintro rfl
          exact hj
      · intro j' q' hq'
        constructor
        · exact fun heq => hlow.address_injective hq' hgoal heq
        · rintro rfl
          rw [hgoal] at hq'
          cases hq'
          rfl
      · rw [hsteps, htarget, List.getLast?_concat]
    · intro i j k q b step r a hq hb hstep hbranch
      exact hlow.branch_ends_block hq hb hstep hbranch
  · rintro ⟨s, hs, t, ht, hno⟩
    cases hlower : m.lower scheme with
    | error e => exact ⟨e, rfl⟩
    | ok p =>
        obtain ⟨j, s', _, hs', hid, _⟩ := (Machine.lower_eq_ok hlower).exists_target hs ht
        exact absurd (hid ▸ List.mem_map_of_mem (List.mem_of_getElem? hs')) hno

/-- Two states that jump to each other, and whose ids look alike. -/
def Machine.lookalikes : Machine Unit :=
  { timers := []
    states :=
      [ { id := .numeric 10
          statements := [.increment "X" (.leaf (.literal 1))]
          transitions := [{ condition := none, target := .symbolic "10" }] },
        { id := .symbolic "10"
          statements := []
          transitions := [{ condition := some (.leaf (.name "X")), target := .numeric 10 }] } ] }

/-- A packed state that jumps to the number where it would lie. -/
def Machine.astray : Machine Unit :=
  { timers := []
    states :=
      [ { id := .symbolic "start"
          statements := []
          transitions := [{ condition := none, target := .numeric 0 }] } ] }

theorem Machine.lower_branches_lookalikes :
    (∃ p q b r, Machine.lookalikes.lower RegisterScheme.free = .ok p ∧ p.states[0]? = some q
      ∧ q.blocks[1]? = some b ∧ b.steps.getLast? = some [.branch r 15])
    ∧ (∃ e, Machine.astray.lower RegisterScheme.free = .error e) := by
  have hlower : (Machine.lookalikes.lower RegisterScheme.free).map
      (fun p => p.states.map ProgramState.address) = .ok [10, 15] := by cbv
  refine ⟨?_, (Machine.lower_branches RegisterScheme.free Machine.astray).2 ?_⟩
  · cases h : Machine.lookalikes.lower RegisterScheme.free with
    | error e =>
        rw [h] at hlower
        cases hlower
    | ok p =>
        rw [h] at hlower
        have haddresses : p.states.map ProgramState.address = [10, 15] := Except.ok.inj hlower
        obtain ⟨q, hq, htransitions⟩ :=
          ((Machine.lower_branches RegisterScheme.free Machine.lookalikes).1 p h).1 0 _ rfl
        obtain ⟨j, goal, b, r, hids, hgoal, _, hb, hlast⟩ := htransitions 0 _ rfl
        obtain rfl : 1 = j := (hids 1).mp rfl
        have haddress : goal.address = 15 := by
          have hget := congrArg (·[1]?) haddresses
          simpa [hgoal] using hget
        rw [haddress] at hlast
        exact ⟨p, q, b, r, rfl, hq, hb, hlast⟩
  · exact ⟨_, List.mem_singleton_self _, _, List.mem_singleton_self _, by decide⟩

end Microstep
