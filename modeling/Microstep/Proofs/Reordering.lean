import Microstep.Proofs.Acceptance
import Microstep.Proofs.Branches

/-!
# Only the order of packed states matters

States with numeric ids may stand anywhere among the others, in any order.  What a machine is
lowered to depends on the order of its states only so far as packed states follow each other.

* `Rearranges` — a list holds the elements of another in a different order, but those with symbolic
  ids in the same one;
* `Placement.position_rearranged` — no state moves.  The floor does not depend on the order at all,
  and what is packed before a state is the same sum over other indices;
* `Machine.lower_isOk_iff` — whether a machine is lowered, as one condition on its source.  Nothing
  in it speaks of the order of states but their positions;
* `Lowered.placed_eq` — a state that lies where it lay and jumps where it jumped is lowered to the
  same op-steps.

`Machine.lower_reorder` puts these together.
-/

namespace Microstep

variable {ρ τ : Type}

/-! ## Rearranged lists -/

/-- **The list `r` is `l` in another order**, where elements with symbolic ids stay in order. -/
structure Rearranges {α : Type} (σ : Equiv.Perm ℕ) (key : α → StateId) (l r : List α) : Prop where
  getElem?_eq : ∀ i, r[i]? = l[σ i]?
  lt_of_lt : ∀ {i j a b}, r[i]? = some a → r[j]? = some b → (key a).isNumeric = false →
    (key b).isNumeric = false → i < j → σ i < σ j

namespace Rearranges

variable {α β : Type} {σ : Equiv.Perm ℕ} {key : α → StateId} {l r : List α}

lemma symm (h : Rearranges σ key l r) : Rearranges σ.symm key r l := by
  have hget : ∀ i, l[i]? = r[σ.symm i]? := fun i => by
    rw [h.getElem?_eq, Equiv.apply_symm_apply]
  refine ⟨hget, fun {i j a b} ha hb hsa hsb hij => ?_⟩
  rw [hget] at ha hb
  by_contra hnot
  have hne : σ.symm j ≠ σ.symm i := fun heq => hij.ne' (σ.symm.injective heq)
  have hlt := h.lt_of_lt hb ha hsb hsa (lt_of_le_of_ne (not_lt.mp hnot) hne)
  rw [Equiv.apply_symm_apply, Equiv.apply_symm_apply] at hlt
  exact hij.asymm hlt

lemma map (h : Rearranges σ key l r) {key' : β → StateId} {f : α → β}
    (hkey : ∀ a, key' (f a) = key a) : Rearranges σ key' (l.map f) (r.map f) := by
  refine ⟨fun i => by rw [List.getElem?_map, List.getElem?_map, h.getElem?_eq], ?_⟩
  intro i j a b ha hb hsa hsb hij
  rw [List.getElem?_map, Option.map_eq_some_iff] at ha hb
  obtain ⟨a, ha, rfl⟩ := ha
  obtain ⟨b, hb, rfl⟩ := hb
  rw [hkey] at hsa hsb
  exact h.lt_of_lt ha hb hsa hsb hij

lemma mem (h : Rearranges σ key l r) {a : α} (ha : a ∈ r) : a ∈ l := by
  obtain ⟨i, hi⟩ := List.mem_iff_getElem?.mp ha
  rw [h.getElem?_eq] at hi
  exact List.mem_of_getElem? hi

lemma nodup (h : Rearranges σ key l r) (hl : l.Nodup) : r.Nodup := by
  rw [List.nodup_iff_getElem?_ne_getElem?]
  intro i j hij hj heq
  have hi : r[i]? = some r[i] := List.getElem?_eq_getElem (hij.trans hj)
  have hlt : σ i < l.length := by
    rw [h.getElem?_eq] at hi
    exact (List.getElem?_eq_some_iff.mp hi).1
  rw [h.getElem?_eq, h.getElem?_eq] at heq
  exact hij.ne (σ.injective ((List.getElem?_inj hlt hl).mp heq))

end Rearranges

/-! ## Positions -/

namespace Placement

variable {σ : Equiv.Perm ℕ} {extents extents' : List Extent}

/-- What is packed up to an index, as a sum over indices. -/
lemma packed_take_eq_sum (extents : List Extent) (k : Nat) :
    packed (extents.take k) = ∑ j ∈ Finset.range k, packed extents[j]?.toList := by
  induction k with
  | zero => rfl
  | succ k ih => rw [packed_take_add_one, ih, Finset.sum_range_succ]

lemma exists_of_packed_ne_zero {o : Option Extent} (h : packed o.toList ≠ 0) :
    ∃ e, o = some e ∧ e.id.isNumeric = false := by
  cases o with
  | none => exact absurd rfl h
  | some e =>
      refine ⟨e, rfl, ?_⟩
      cases hid : e.id with
      | numeric a =>
          rw [Option.toList_some, packed_cons_numeric hid] at h
          exact absurd rfl h
      | symbolic l => rfl

lemma floor_rearranged (h : Rearranges σ Extent.id extents extents') :
    floor extents' = floor extents := by
  refine le_antisymm ?_ ?_
  · exact floor_le_iff.mpr fun e he r hr => reach_le_floor (h.mem he) hr
  · exact floor_le_iff.mpr fun e he r hr => reach_le_floor (h.symm.mem he) hr

/-- The packed states before a packed one are the same: `σ` carries their indices over. -/
lemma packed_take_rearranged (h : Rearranges σ Extent.id extents extents') {i : Nat} {e : Extent}
    (he : extents'[i]? = some e) (hsym : e.id.isNumeric = false) :
    packed (extents'.take i) = packed (extents.take (σ i)) := by
  rw [packed_take_eq_sum, packed_take_eq_sum]
  refine Finset.sum_bij_ne_zero (fun j _ _ => σ j) ?_ ?_ ?_ ?_
  · intro j hj hne
    obtain ⟨e', he', hsym'⟩ := exists_of_packed_ne_zero hne
    exact Finset.mem_range.mpr (h.lt_of_lt he' he hsym' hsym (Finset.mem_range.mp hj))
  · intro j _ _ j' _ _ heq
    exact σ.injective heq
  · intro j hj hne
    obtain ⟨e', he', hsym'⟩ := exists_of_packed_ne_zero hne
    refine ⟨σ.symm j, ?_, ?_, σ.apply_symm_apply j⟩
    · rw [h.getElem?_eq] at he
      have hlt := h.symm.lt_of_lt he' he hsym' hsym (Finset.mem_range.mp hj)
      rwa [Equiv.symm_apply_apply, ← Finset.mem_range] at hlt
    · rwa [h.getElem?_eq, Equiv.apply_symm_apply]
  · intro j _ _
    rw [h.getElem?_eq]

/-- **No state moves.** -/
theorem position_rearranged (h : Rearranges σ Extent.id extents extents') {i : Nat} {e : Extent}
    (he : extents'[i]? = some e) : position extents' i e = position extents (σ i) e := by
  cases hid : e.id with
  | numeric a => rw [position, position, positionFrom_numeric hid, positionFrom_numeric hid]
  | symbolic l =>
      have hsym : e.id.isNumeric = false := by
        rw [hid]
        rfl
      rw [position, position, positionFrom_symbolic hid, positionFrom_symbolic hid,
        floor_rearranged h, packed_take_rearranged h he hsym]

end Placement

namespace Machine

variable {σ : Equiv.Perm ℕ} {m m' : Machine τ}

lemma position_rearranged (h : Rearranges σ State.id m.states m'.states) {i : Nat} {s : State}
    (hs : m'.states[i]? = some s) :
    Placement.position m'.extents i s.extent = Placement.position m.extents (σ i) s.extent :=
  Placement.position_rearranged (h.map fun _ => rfl) (getElem?_extents hs)

/-! ## Which machines are lowered -/

/-- **What lowering asks of a machine.** -/
structure Acceptable (m : Machine τ) : Prop where
  wellFormed : ∀ s ∈ m.states, s.faults = []
  nodup : m.ids.Nodup
  /-- Every reserved slot is an address. -/
  fits : ∀ {k s}, m.states[k]? = some s →
    Placement.position m.extents k s.extent + s.width + 1 < UInt32.size
  apart : ∀ i j, ¬ m.Overlap i j
  declared : ∀ target, m.Jumps target → target ∈ m.ids

lemma Acceptable.faults_eq_nil (h : m.Acceptable) : m.faults = [] := by
  have hmal : m.malformed = [] :=
    List.flatMap_eq_nil_iff.mpr fun s hs => List.map_eq_nil_iff.mpr (h.wellFormed s hs)
  have hplaced : Placement.faults m.extents = [] := by
    refine Placement.faults_eq_nil ?_ fun {k e} he => ?_
    · rw [map_id_extents, StateId.repeats_eq_nil_iff]
      exact h.nodup
    · obtain ⟨s, hs, rfl⟩ := exists_state_of_extent he
      exact h.fits hs
  have hassign := Placement.assign_failsFirst m.extents
  rw [hplaced] at hassign
  obtain ⟨addresses, haddresses⟩ := hassign
  rw [faults, hmal, hplaced, (collisions_eq_nil_iff_overlap haddresses).mpr h.apart,
    unresolved_eq_nil_iff.mpr h.declared]
  rfl

/-- **A machine is lowered exactly if it is acceptable**, whatever its registers are called. -/
theorem lower_isOk_iff (scheme : RegisterScheme ρ) :
    (∃ p, m.lower scheme = .ok p) ↔ m.Acceptable := by
  constructor
  · rintro ⟨p, hp⟩
    have hlow := lower_eq_ok hp
    have hnil := (m.lower_failsFirst scheme hlow.fits).eq_nil hp
    rw [faults_eq, List.append_eq_nil_iff, List.append_eq_nil_iff, List.append_eq_nil_iff] at hnil
    obtain ⟨hmal, _, _, hunresolved⟩ := hnil
    refine ⟨fun s hs => ?_, hlow.nodup_ids, fun {k s} hs => ?_, ?_, ?_⟩
    · exact List.map_eq_nil_iff.mp (List.flatMap_eq_nil_iff.mp hmal s hs)
    · obtain ⟨q, hq⟩ := hlow.exists_placed hs
      obtain ⟨haddress, hfit, _⟩ := hlow.state_at hs hq
      rwa [← haddress]
    · exact (collisions_eq_nil_iff_overlap hlow.assign_eq).mp hlow.collisions_eq
    · exact unresolved_eq_nil_iff.mp hunresolved
  · intro h
    have hfit : ∀ s ∈ m.states, s.width < UInt32.size := by
      intro s hs
      obtain ⟨k, hk⟩ := List.mem_iff_getElem?.mp hs
      have hslot := h.fits hk
      omega
    have hfaults := m.lower_failsFirst scheme hfit
    rwa [h.faults_eq_nil] at hfaults

/-- **Nothing that lowering asks depends on the order of fixed states.** -/
theorem Acceptable.rearranged (hm : m.Acceptable)
    (h : Rearranges σ State.id m.states m'.states) : m'.Acceptable := by
  have hids : Rearranges σ (fun id => id) m.ids m'.ids := h.map fun _ => rfl
  refine ⟨fun s hs => hm.wellFormed s (h.mem hs), hids.nodup hm.nodup, fun {k s} hs => ?_, ?_, ?_⟩
  · rw [position_rearranged h hs]
    rw [h.getElem?_eq] at hs
    exact hm.fits hs
  · rintro i j ⟨hij, s, t, a, b, hs, hida, ht, hidb, hmeet⟩
    rw [h.getElem?_eq] at hs ht
    exact hm.apart (σ i) (σ j) ⟨σ.injective.ne hij, s, t, a, b, hs, hida, ht, hidb, hmeet⟩
  · rintro target ⟨s, hs, hjump⟩
    exact hids.symm.mem (hm.declared target ⟨s, h.mem hs, hjump⟩)

end Machine

/-! ## What a state is lowered to -/

lemma OpStep.relabel_congr {κ κ' : Type} {f f' : κ → κ'} {step : OpStep ρ κ}
    (h : ∀ l ∈ step.labels, f l = f' l) : step.relabel f = step.relabel f' := by
  refine List.map_congr_left fun op hop => ?_
  cases op with
  | openGuard => rfl
  | compute c => rfl
  | branch r target =>
      have hlabel : target ∈ step.labels :=
        List.mem_flatMap.mpr ⟨_, hop, by simp [MicroOp.label?]⟩
      rw [MicroOp.relabel, MicroOp.relabel, h target hlabel]

/-- Blocks depend on where their own labels lie only. -/
lemma Compiled.blocksAt_congr {f f' : StateId → Address} :
    ∀ {bodies : List (Body ρ)} {start : Address},
      (∀ l ∈ bodies.flatMap Body.labels, f l = f' l) →
        Compiled.blocksAt f start bodies = Compiled.blocksAt f' start bodies
  | [], _, _ => rfl
  | body :: rest, start, h => by
      rw [List.flatMap_cons, List.forall_mem_append] at h
      have hsteps : body.map (OpStep.relabel f) = body.map (OpStep.relabel f') :=
        List.map_congr_left fun step hstep => OpStep.relabel_congr fun l hl =>
          h.1 l (List.mem_flatMap.mpr ⟨step, hstep, hl⟩)
      rw [Compiled.blocksAt, Compiled.blocksAt, hsteps, Compiled.blocksAt_congr h.2]

namespace Lowered

variable {σ : Equiv.Perm ℕ} {scheme : RegisterScheme ρ} {m m' : Machine τ} {p p' : Program ρ τ}

/-- **What a state is lowered to depends on where it lies and where it jumps to.**  The two machines
may have nothing else in common. -/
theorem placed_eq (h : Lowered scheme m p) (h' : Lowered scheme m' p') {i i' : Nat} {s : State}
    {q q' : ProgramState ρ} (hs : m.states[i]? = some s) (hs' : m'.states[i']? = some s)
    (hq : p.states[i]? = some q) (hq' : p'.states[i']? = some q')
    (hposition : Placement.position m'.extents i' s.extent
      = Placement.position m.extents i s.extent)
    (htargets : ∀ t ∈ s.transitions, targets m' p' t.target = targets m p t.target) : q' = q := by
  obtain ⟨haddress, _, bodies, hbodies, hblocks⟩ := h.state_at hs hq
  obtain ⟨haddress', _, bodies', hbodies', hblocks'⟩ := h'.state_at hs' hq'
  rw [hbodies] at hbodies'
  cases hbodies'
  have hsame : q'.address = q.address :=
    UInt32.toNat_inj.mp ((haddress'.trans hposition).trans haddress.symm)
  have hlabels : ∀ l ∈ bodies.flatMap Body.labels, targets m' p' l = targets m p l := by
    rw [State.labels_bodies hbodies, List.forall_mem_map]
    exact htargets
  rw [hsame, Compiled.blocksAt_congr hlabels, ← hblocks] at hblocks'
  cases q
  cases q'
  rw [ProgramState.mk.injEq]
  exact ⟨hsame, hblocks'⟩

/-- An id stands for the same address. -/
lemma targets_rearranged (h : Lowered scheme m p) (h' : Lowered scheme m' p')
    (hσ : Rearranges σ State.id m.states m'.states) {s : State} (hs : s ∈ m'.states)
    {t : Transition} (ht : t ∈ s.transitions) :
    targets m' p' t.target = targets m p t.target := by
  obtain ⟨j, s', q', hs', hid, hq', htarget⟩ := h'.exists_target hs ht
  have hj : m.states[σ j]? = some s' := by rw [← hσ.getElem?_eq, hs']
  obtain ⟨q, hq⟩ := h.exists_placed hj
  have haddress : q'.address.toNat = q.address.toNat := by
    rw [(h'.state_at hs' hq').1, (h.state_at hj hq).1, Machine.position_rearranged hσ hs']
  rw [htarget, ← hid, h.targets_id hj hq]
  exact UInt32.toNat_inj.mp haddress

lemma getElem?_rearranged (h : Lowered scheme m p) (h' : Lowered scheme m' p')
    (hσ : Rearranges σ State.id m.states m'.states) {i : Nat} {q' : ProgramState ρ}
    (hq' : p'.states[i]? = some q') : p.states[σ i]? = some q' := by
  obtain ⟨s, hs⟩ := h'.exists_source hq'
  have hi : m.states[σ i]? = some s := by rw [← hσ.getElem?_eq, hs]
  obtain ⟨q, hq⟩ := h.exists_placed hi
  rw [hq, h.placed_eq h' hi hs hq hq' (Machine.position_rearranged hσ hs)
    fun t ht => h.targets_rearranged h' hσ (List.mem_of_getElem? hs) ht]

/-- **The program is rearranged in the same way.** -/
theorem states_rearranged (h : Lowered scheme m p) (h' : Lowered scheme m' p')
    (hσ : Rearranges σ State.id m.states m'.states) (i : Nat) :
    p'.states[i]? = p.states[σ i]? := by
  refine Option.ext fun q => ⟨h.getElem?_rearranged h' hσ, fun hq => ?_⟩
  have hback := h'.getElem?_rearranged h hσ.symm hq
  rwa [Equiv.symm_apply_apply] at hback

end Lowered

/-! ## Reordered machines -/

namespace Machine

/-- **The machine with its states in another order**: at index `i` stands the state that stood at
`σ i`. -/
def reorder (m : Machine τ) (σ : Equiv.Perm (Fin m.states.length)) : Machine τ :=
  { m with states := List.ofFn fun i => m.states.get (σ i) }

/-- Whether the states with symbolic ids follow each other as before. -/
def KeepsPacked (m : Machine τ) (σ : Equiv.Perm (Fin m.states.length)) : Prop :=
  ∀ i j, i < j → (m.states.get (σ i)).id.isNumeric = false →
    (m.states.get (σ j)).id.isNumeric = false → σ i < σ j

variable {m : Machine τ} {σ : Equiv.Perm (Fin m.states.length)}

/-- The permutation of the indices, with all other numbers left where they are. -/
lemma rearranges_reorder (h : m.KeepsPacked σ) :
    Rearranges (σ.extendDomain Fin.equivSubtype) State.id m.states (m.reorder σ).states := by
  have hσ : ∀ i : Fin m.states.length, σ.extendDomain Fin.equivSubtype i.1 = (σ i).1 :=
    fun i => σ.extendDomain_apply_image Fin.equivSubtype i
  have hget : ∀ i : Fin m.states.length,
      (m.reorder σ).states[i.1]? = some (m.states.get (σ i)) := by
    intro i
    simp [reorder]
  have hlength : (m.reorder σ).states.length = m.states.length := List.length_ofFn
  refine ⟨fun i => ?_, fun {i j a b} ha hb hsa hsb hij => ?_⟩
  · rcases Nat.lt_or_ge i m.states.length with hi | hi
    · rw [hget ⟨i, hi⟩, hσ ⟨i, hi⟩]
      exact (List.getElem?_eq_getElem _).symm
    · rw [σ.extendDomain_apply_not_subtype Fin.equivSubtype (Nat.not_lt.mpr hi),
        List.getElem?_eq_none hi, List.getElem?_eq_none (by rw [hlength]; exact hi)]
  · have hi : i < m.states.length := hlength ▸ (List.getElem?_eq_some_iff.mp ha).1
    have hj : j < m.states.length := hlength ▸ (List.getElem?_eq_some_iff.mp hb).1
    obtain rfl := Option.some.inj ((hget ⟨i, hi⟩).symm.trans ha)
    obtain rfl := Option.some.inj ((hget ⟨j, hj⟩).symm.trans hb)
    rw [hσ ⟨i, hi⟩, hσ ⟨j, hj⟩]
    exact h ⟨i, hi⟩ ⟨j, hj⟩ hij hsa hsb

/-- **Source order matters among packed states only.**  A machine whose states are put in another
order, with the packed ones still following each other as before, is lowered if and only if the
machine is.  Its program has the same timers and the same states, in that other order: each keeps
its address, its blocks and where it branches to. -/
theorem lower_reorder (scheme : RegisterScheme ρ) (m : Machine τ)
    (σ : Equiv.Perm (Fin m.states.length)) (h : m.KeepsPacked σ) :
    ((∃ p', (m.reorder σ).lower scheme = .ok p') ↔ ∃ p, m.lower scheme = .ok p)
    ∧ ∀ p p', m.lower scheme = .ok p → (m.reorder σ).lower scheme = .ok p' →
        p'.timers = p.timers
        ∧ p.states.length = m.states.length ∧ p'.states.length = m.states.length
        ∧ ∀ i : Fin m.states.length, p'.states[i.1]? = p.states[(σ i).1]? := by
  have hσ := rearranges_reorder h
  refine ⟨?_, fun p p' hp hp' => ?_⟩
  · rw [lower_isOk_iff, lower_isOk_iff]
    exact ⟨fun hm => hm.rearranged hσ.symm, fun hm => hm.rearranged hσ⟩
  · have hlow := lower_eq_ok hp
    have hlow' := lower_eq_ok hp'
    refine ⟨hlow'.timers_eq.trans hlow.timers_eq.symm, hlow.states.length_eq.symm, ?_, fun i => ?_⟩
    · rw [← hlow'.states.length_eq]
      exact List.length_ofFn
    · rw [hlow.states_rearranged hlow' hσ]
      exact congrArg (p.states[·]?) (σ.extendDomain_apply_image Fin.equivSubtype i)

/-- Packed and fixed states in turn, each of which jumps to the next. -/
def shuffled : Machine Unit :=
  { timers := [()]
    states :=
      [ { id := .symbolic "first"
          statements := [.increment "X" (.leaf (.literal 1))]
          transitions := [{ condition := none, target := .numeric 9 }] },
        { id := .numeric 9
          statements := []
          transitions := [{ condition := some (.leaf (.name "X")), target := .symbolic "last" }] },
        { id := .symbolic "last"
          statements := []
          transitions := [{ condition := none, target := .numeric 2 }] },
        { id := .numeric 2
          statements := []
          transitions := [{ condition := none, target := .symbolic "first" }] } ] }

/-- The fixed states trade places, and the packed ones move to the end. -/
def shuffle : Equiv.Perm (Fin 4) :=
  ⟨![3, 1, 0, 2], ![2, 1, 3, 0], by decide, by decide⟩

theorem lower_reorder_shuffled :
    shuffled.KeepsPacked shuffle
      ∧ ∃ p p', shuffled.lower RegisterScheme.free = .ok p
        ∧ (shuffled.reorder shuffle).lower RegisterScheme.free = .ok p'
        ∧ p'.states[0]? = p.states[3]? ∧ p'.states[1]? = p.states[1]?
        ∧ p'.states[2]? = p.states[0]? ∧ p'.states[3]? = p.states[2]? := by
  have hkeeps : shuffled.KeepsPacked shuffle := by
    unfold KeepsPacked
    decide
  have hlower : (shuffled.lower RegisterScheme.free).isOk = true := by cbv
  obtain ⟨hiff, hstates⟩ := lower_reorder RegisterScheme.free shuffled shuffle hkeeps
  cases hp : shuffled.lower RegisterScheme.free with
  | error e =>
      rw [hp] at hlower
      cases hlower
  | ok p =>
      obtain ⟨p', hp'⟩ := hiff.mpr ⟨p, hp⟩
      obtain ⟨_, _, _, hget⟩ := hstates p p' hp hp'
      exact ⟨hkeeps, p, p', rfl, hp', hget (0 : Fin 4), hget (1 : Fin 4),
        hget (2 : Fin 4), hget (3 : Fin 4)⟩

end Machine

end Microstep
