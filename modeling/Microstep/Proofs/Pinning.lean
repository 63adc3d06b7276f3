import Microstep.Proofs.Relabeling

/-!
# Pinning addresses

Lowering gives every symbolic id an address.  Writing that address in place of the id, for the first
few packed states, changes nothing: the pinned states become fixed ones, and the others are packed
above them as before.

**Positions.**  `Placement.Pins` says that the packed states in front of some index get their
positions for ids.  The floor then rises by what was packed there (`Placement.Pins.floor_eq`),
packing starts with the states behind the index, and no state moves (`Placement.Pins.position_eq`).

**Ids.**  In a lowered machine different ids stand for different addresses, and a numeric id stands
for itself.  So pinning keeps ids apart, also where some are pinned and others are not
(`Lowered.pin_injOn`), and `Machine.lower_mapIds` applies.

**Machines.**  `Machine.pinned` pins the first packed states, `Machine.resolved` writes addresses
only, and `Machine.lower_pinned` says that both are lowered to the same program.
-/

namespace Microstep

variable {ρ τ : Type}

/-! ## Positions -/

namespace Placement

lemma packed_eq_zero {extents : List Extent} (h : ∀ e ∈ extents, e.id.isNumeric = true) :
    packed extents = 0 := by
  have hnone : extents.filter (fun e => !e.id.isNumeric) = [] :=
    List.filter_eq_nil_iff.mpr fun e he => by simp [h e he]
  simp [packed, hnone]

/-- **The packed states in front of index `c` get their positions for ids**, and all other ids stay
as they are. -/
structure Pins (g : StateId → StateId) (extents : List Extent) (c : Nat) : Prop where
  pinned : ∀ {i e}, extents[i]? = some e → i < c → e.id.isNumeric = false →
    ∃ a : Address, g e.id = .numeric a ∧ a.toNat = position extents i e
  kept : ∀ {i e}, extents[i]? = some e → c ≤ i ∨ e.id.isNumeric = true → g e.id = e.id

namespace Pins

variable {g : StateId → StateId} {extents : List Extent} {c : Nat}

lemma mapId_eq (h : Pins g extents c) {i : Nat} {e : Extent} (he : extents[i]? = some e)
    (hi : c ≤ i ∨ e.id.isNumeric = true) : e.mapId g = e := by
  rw [Extent.mapId, h.kept he hi]

lemma mem_map_mapId {i : Nat} {e : Extent} (he : extents[i]? = some e) :
    e.mapId g ∈ extents.map (Extent.mapId g) :=
  List.mem_map_of_mem (List.mem_of_getElem? he)

/-- In front of `c` nothing is packed any more. -/
lemma packed_take_eq_zero (h : Pins g extents c) :
    packed ((extents.map (Extent.mapId g)).take c) = 0 := by
  refine packed_eq_zero fun e' he' => ?_
  rw [← List.map_take] at he'
  obtain ⟨e, he, rfl⟩ := List.mem_map.mp he'
  obtain ⟨i, hi⟩ := List.mem_iff_getElem?.mp he
  rw [List.getElem?_take] at hi
  split_ifs at hi with hic
  cases hnum : e.id.isNumeric with
  | true => rw [h.mapId_eq hi (Or.inr hnum), hnum]
  | false =>
      obtain ⟨a, ha, _⟩ := h.pinned hi hic hnum
      rw [Extent.mapId, ha]
      rfl

/-- Behind `c` the same is packed as before. -/
lemma packed_take (h : Pins g extents c) {i : Nat} (hi : c ≤ i) :
    packed (extents.take i)
      = packed (extents.take c) + packed ((extents.map (Extent.mapId g)).take i) := by
  induction i, hi using Nat.le_induction with
  | base => rw [h.packed_take_eq_zero, Nat.add_zero]
  | succ i hi ih =>
      have hslot : (extents.map (Extent.mapId g))[i]? = extents[i]? := by
        rw [List.getElem?_map]
        cases he : extents[i]? with
        | none => rfl
        | some e => rw [Option.map_some, h.mapId_eq he (Or.inl hi)]
      rw [packed_take_add_one, packed_take_add_one, hslot, ih, Nat.add_assoc]

/-- A pinned state reaches as far as the packed states up to it did. -/
lemma reach?_mapId (h : Pins g extents c) {i : Nat} {e : Extent} {l : String}
    (he : extents[i]? = some e) (hi : i < c) (hid : e.id = .symbolic l) :
    (e.mapId g).reach? = some (floor extents + packed (extents.take (i + 1))) := by
  obtain ⟨a, ha, hat⟩ := h.pinned he hi (by rw [hid]; rfl)
  have hwidth : (e.mapId g).width = e.width := rfl
  rw [position, positionFrom_symbolic hid] at hat
  rw [Extent.reach?_numeric (show (e.mapId g).id = .numeric a from ha), packed_take_succ he hid,
    hat, hwidth]
  simp only [Nat.add_assoc]

lemma floor_le (h : Pins g extents c) :
    floor (extents.map (Extent.mapId g)) ≤ floor extents + packed (extents.take c) := by
  refine floor_le_iff.mpr fun e' he' r hr => ?_
  obtain ⟨e, he, rfl⟩ := List.mem_map.mp he'
  obtain ⟨i, hi⟩ := List.mem_iff_getElem?.mp he
  have hkept : c ≤ i ∨ e.id.isNumeric = true → r ≤ floor extents + packed (extents.take c) := by
    intro hk
    rw [h.mapId_eq hi hk] at hr
    exact (reach_le_floor he hr).trans (Nat.le_add_right _ _)
  cases hid : e.id with
  | numeric a => exact hkept (Or.inr (by rw [hid]; rfl))
  | symbolic l =>
      rcases Nat.lt_or_ge i c with hic | hic
      · rw [h.reach?_mapId hi hic hid] at hr
        cases hr
        exact Nat.add_le_add_left (packed_take_le extents hic) _
      · exact hkept (Or.inl hic)

/-- The fixed states reach the floor, and each pinned state raises it by what it takes up. -/
lemma le_floor (h : Pins g extents c) :
    ∀ {i : Nat}, i ≤ c →
      floor extents + packed (extents.take i) ≤ floor (extents.map (Extent.mapId g))
  | 0, _ => by
      refine floor_le_iff.mpr fun e he r hr => ?_
      obtain ⟨i, hi⟩ := List.mem_iff_getElem?.mp he
      cases hid : e.id with
      | numeric a =>
          have hkept : e.mapId g = e := h.mapId_eq hi (Or.inr (by rw [hid]; rfl))
          exact reach_le_floor (mem_map_mapId hi) (by rwa [hkept])
      | symbolic l =>
          rw [Extent.reach?_symbolic hid] at hr
          cases hr
  | i + 1, hi => by
      have ih := h.le_floor (Nat.le_of_succ_le hi)
      rw [packed_take_add_one]
      cases he : extents[i]? with
      | none => exact ih
      | some e =>
          cases hid : e.id with
          | numeric a =>
              rw [Option.toList_some, packed_cons_numeric hid]
              exact ih
          | symbolic l =>
              rw [← he, ← packed_take_add_one]
              exact reach_le_floor (mem_map_mapId he) (h.reach?_mapId he hi hid)

/-- **Packing goes on where it would have been**: the floor rises by what was packed in front of
`c`. -/
theorem floor_eq (h : Pins g extents c) :
    floor (extents.map (Extent.mapId g)) = floor extents + packed (extents.take c) :=
  le_antisymm h.floor_le (h.le_floor le_rfl)

/-- **No state moves.** -/
theorem position_eq (h : Pins g extents c) {i : Nat} {e : Extent} (he : extents[i]? = some e) :
    position (extents.map (Extent.mapId g)) i (e.mapId g) = position extents i e := by
  cases hid : e.id with
  | numeric a =>
      rw [h.mapId_eq he (Or.inr (by rw [hid]; rfl)), position, position,
        positionFrom_numeric hid, positionFrom_numeric hid]
  | symbolic l =>
      rcases Nat.lt_or_ge i c with hic | hic
      · obtain ⟨a, ha, hat⟩ := h.pinned he hic (by rw [hid]; rfl)
        rw [← hat, position, positionFrom_numeric (show (e.mapId g).id = .numeric a from ha)]
      · rw [h.mapId_eq he (Or.inl hic), position, position, positionFrom_symbolic hid,
          positionFrom_symbolic hid, h.floor_eq, h.packed_take hic, Nat.add_assoc]

end Pins

end Placement

/-! ## Ids -/

/-- The first elements with a property are those among the first elements. -/
lemma exists_take_filter {α : Type} (p : α → Bool) (l : List α) :
    ∀ j, ∃ c, (l.filter p).take j = (l.take c).filter p := by
  induction l with
  | nil => exact fun j => ⟨0, by simp⟩
  | cons a l ih =>
      intro j
      cases ha : p a with
      | false =>
          obtain ⟨c, hc⟩ := ih j
          exact ⟨c + 1, by simp [ha, hc]⟩
      | true =>
          cases j with
          | zero => exact ⟨0, by simp⟩
          | succ j =>
              obtain ⟨c, hc⟩ := ih j
              exact ⟨c + 1, by simp [ha, hc]⟩

lemma mem_take_iff_of_nodup {α : Type} {l : List α} (hl : l.Nodup) {i : Nat} {a : α}
    (ha : l[i]? = some a) {c : Nat} : a ∈ l.take c ↔ i < c := by
  rw [List.mem_iff_getElem?]
  constructor
  · rintro ⟨k, hk⟩
    rw [List.getElem?_take] at hk
    split_ifs at hk with hkc
    have hik : i = k :=
      (List.getElem?_inj (List.getElem?_eq_some_iff.mp ha).1 hl).mp (ha.trans hk.symm)
    rwa [hik]
  · intro hi
    exact ⟨i, by rwa [List.getElem?_take_of_lt hi]⟩

namespace Machine

/-- The symbolic ids of a machine. -/
def symbolicIds (m : Machine τ) : List StateId := m.ids.filter fun id => !id.isNumeric

/-- **What becomes of an id** if the first `j` symbolic ones are pinned to the addresses they have
in the program `p`. -/
def pin (m : Machine τ) (p : Program ρ τ) (j : Nat) (id : StateId) : StateId :=
  if id ∈ m.symbolicIds.take j then .numeric (Lowered.targets m p id) else id

/-- **The machine with the first `j` symbolic ids pinned**, where they are declared and where they
are jumped to. -/
def pinned (m : Machine τ) (p : Program ρ τ) (j : Nat) : Machine τ := m.mapIds (m.pin p j)

/-- **The machine with an address in place of every id.** -/
def resolved (m : Machine τ) (p : Program ρ τ) : Machine τ :=
  m.mapIds fun id => .numeric (Lowered.targets m p id)

end Machine

namespace Lowered

variable {scheme : RegisterScheme ρ} {m : Machine τ} {p : Program ρ τ}

/-- A numeric id stands for itself. -/
lemma targets_numeric (h : Lowered scheme m p) {a : Address} (hid : .numeric a ∈ m.ids) :
    targets m p (.numeric a) = a := by
  obtain ⟨s, hs, hsid⟩ := List.mem_map.mp hid
  obtain ⟨i, hi⟩ := List.mem_iff_getElem?.mp hs
  obtain ⟨q, hq⟩ := h.exists_placed hi
  have hposition := (h.state_at hi hq).1
  rw [Placement.position,
    Placement.positionFrom_numeric (show s.extent.id = .numeric a from hsid)] at hposition
  rw [← hsid, h.targets_id hi hq]
  exact UInt32.toNat_inj.mp hposition

/-- **Different ids stand for different addresses.** -/
lemma targets_injOn (h : Lowered scheme m p) : Set.InjOn (targets m p) {id | id ∈ m.ids} := by
  intro id hid id' hid' heq
  obtain ⟨s, hs, rfl⟩ := List.mem_map.mp hid
  obtain ⟨s', hs', rfl⟩ := List.mem_map.mp hid'
  obtain ⟨i, hi⟩ := List.mem_iff_getElem?.mp hs
  obtain ⟨i', hi'⟩ := List.mem_iff_getElem?.mp hs'
  obtain ⟨q, hq⟩ := h.exists_placed hi
  obtain ⟨q', hq'⟩ := h.exists_placed hi'
  rw [h.targets_id hi hq, h.targets_id hi' hq'] at heq
  obtain rfl := h.address_injective hq hq' heq
  rw [hi] at hi'
  cases hi'
  rfl

/-- What is jumped to is declared. -/
lemma mem_ids_of_mem_targets (h : Lowered scheme m p) {id : StateId} (hid : id ∈ m.targets) :
    id ∈ m.ids := by
  obtain ⟨s, hs, hid⟩ := List.mem_flatMap.mp hid
  obtain ⟨t, ht, rfl⟩ := List.mem_map.mp hid
  obtain ⟨i, s', _, hs', heq, _⟩ := h.exists_target hs ht
  exact heq ▸ List.mem_map_of_mem (List.mem_of_getElem? hs')

/-- Where an id becomes a number, that is the address it stands for. -/
lemma eq_targets_of_pin (h : Lowered scheme m p) {j : Nat} {id : StateId} {a : Address}
    (hid : id ∈ m.ids) (hpin : m.pin p j id = .numeric a) : a = targets m p id := by
  rw [Machine.pin] at hpin
  split_ifs at hpin with hmem
  · cases hpin
    rfl
  · rw [hpin] at hid ⊢
    exact (h.targets_numeric hid).symm

/-- **Pinning keeps ids apart.** -/
theorem pin_injOn (h : Lowered scheme m p) (j : Nat) :
    Set.InjOn (m.pin p j) {id | id ∈ m.ids} := by
  intro id hid id' hid' heq
  cases hpin : m.pin p j id with
  | numeric a =>
      have ha := h.eq_targets_of_pin hid hpin
      have ha' := h.eq_targets_of_pin hid' (heq.symm.trans hpin)
      exact h.targets_injOn hid hid' (ha.symm.trans ha')
  | symbolic l =>
      -- an id that is still symbolic was not pinned
      have hkept : ∀ {x : StateId}, m.pin p j x = .symbolic l → x = .symbolic l := by
        intro x hx
        rw [Machine.pin] at hx
        split_ifs at hx
        exact hx
      rw [hkept hpin, hkept (heq.symm.trans hpin)]

/-- The first `j` symbolic ids are those in front of some index. -/
lemma exists_pins (h : Lowered scheme m p) (j : Nat) :
    ∃ c, Placement.Pins (m.pin p j) m.extents c := by
  obtain ⟨c, hc⟩ := exists_take_filter (fun id : StateId => !id.isNumeric) m.ids j
  have hmem : ∀ {i : Nat} {s : State}, m.states[i]? = some s →
      (s.id ∈ m.symbolicIds.take j ↔ i < c ∧ s.id.isNumeric = false) := by
    intro i s hs
    rw [Machine.symbolicIds, hc, List.mem_filter,
      mem_take_iff_of_nodup h.nodup_ids (Machine.getElem?_ids hs), Bool.not_eq_true']
  refine ⟨c, fun {i e} he hi hsym => ?_, fun {i e} he hi => ?_⟩
  · obtain ⟨s, hs, rfl⟩ := Machine.exists_state_of_extent he
    obtain ⟨q, hq⟩ := h.exists_placed hs
    refine ⟨q.address, ?_, (h.state_at hs hq).1⟩
    show m.pin p j s.id = .numeric q.address
    rw [Machine.pin, if_pos ((hmem hs).mpr ⟨hi, hsym⟩), h.targets_id hs hq]
  · obtain ⟨s, hs, rfl⟩ := Machine.exists_state_of_extent he
    refine if_neg fun hpinned => ?_
    obtain ⟨hic, hsym⟩ := (hmem hs).mp hpinned
    rcases hi with hi | hi
    · omega
    · exact Bool.false_ne_true (hsym.symm.trans hi)

/-- **Pinned states are assigned the same addresses.** -/
theorem assign_pin (h : Lowered scheme m p) (j : Nat) :
    Placement.assign (m.extents.map (Extent.mapId (m.pin p j)))
      = .ok (p.states.map ProgramState.address) := by
  obtain ⟨c, hpins⟩ := h.exists_pins j
  obtain ⟨hlen, hpos⟩ := Placement.assign_eq_ok h.assign_eq
  refine Placement.assign_eq_ok_of_position ?_ (by rw [hlen, List.length_map]) ?_
  · have hids : (m.extents.map (Extent.mapId (m.pin p j))).map Extent.id
        = m.ids.map (m.pin p j) := by
      rw [← Machine.map_id_extents, List.map_map, List.map_map]
      rfl
    rw [hids, StateId.repeats_eq_nil_iff]
    exact h.nodup_ids.map_on fun x hx y hy heq => h.pin_injOn j hx hy heq
  · intro k e' a he' ha
    rw [List.getElem?_map, Option.map_eq_some_iff] at he'
    obtain ⟨e, he, rfl⟩ := he'
    obtain ⟨b, hb, hat, hfit⟩ := hpos he
    rw [ha] at hb
    cases hb
    exact ⟨hat.trans (hpins.position_eq he).symm, hfit⟩

end Lowered

/-! ## Machines -/

namespace Machine

variable {scheme : RegisterScheme ρ} {m : Machine τ} {p : Program ρ τ}

lemma mapIds_congr {g g' : StateId → StateId}
    (h : ∀ id, id ∈ m.ids ∨ id ∈ m.targets → g id = g' id) : m.mapIds g = m.mapIds g' := by
  rw [mapIds, mapIds]
  congr 1
  refine List.map_congr_left fun s hs => ?_
  rw [State.mapIds, State.mapIds, h s.id (Or.inl (List.mem_map_of_mem hs))]
  congr 1
  refine List.map_congr_left fun t ht => ?_
  rw [Transition.mapIds, Transition.mapIds, h t.target]
  exact Or.inr (List.mem_flatMap.mpr ⟨s, hs, List.mem_map_of_mem ht⟩)

lemma mem_ids_of_occurs (h : Lowered scheme m p) {id : StateId}
    (hid : id ∈ m.ids ∨ id ∈ m.targets) : id ∈ m.ids := by
  rcases hid with hid | hid
  · exact hid
  · exact h.mem_ids_of_mem_targets hid

/-- Pinning every symbolic id leaves addresses only. -/
lemma resolved_eq_pinned (h : Lowered scheme m p) :
    m.resolved p = m.pinned p m.symbolicIds.length := by
  refine mapIds_congr fun id hid => ?_
  have hmem : id ∈ m.ids := mem_ids_of_occurs h hid
  rw [pin, List.take_length]
  cases id with
  | numeric a =>
      rw [if_neg (by simp [symbolicIds, StateId.isNumeric]), h.targets_numeric hmem]
  | symbolic l => rw [if_pos (by simp [symbolicIds, StateId.isNumeric, hmem])]

lemma lower_mapIds_pin (h : m.lower scheme = .ok p) (j : Nat) :
    (m.mapIds (m.pin p j)).lower scheme = .ok p := by
  have hlow := lower_eq_ok h
  have hassign : Lockstep (LowerError.mapIds (m.pin p j)) Eq (Placement.assign m.extents)
      (Placement.assign (m.extents.map (Extent.mapId (m.pin p j)))) := by
    rw [hlow.assign_eq, hlow.assign_pin j]
    exact rfl
  have hinj : Set.InjOn (m.pin p j) {id | id ∈ m.ids ∨ id ∈ m.targets} :=
    (hlow.pin_injOn j).mono fun id hid => mem_ids_of_occurs hlow hid
  have hlower := (lower_mapIds scheme hinj hassign).eq_mapError
  rwa [h] at hlower

/-- **Pinning addresses changes nothing.**  Give the first `j` packed states of a machine the
addresses that lowering gave them, as their ids and wherever they are jumped to: it is lowered to
the same program.  If every id is replaced by its address it still is, so this is a fixed point. -/
theorem lower_pinned (h : m.lower scheme = .ok p) :
    (∀ j, (m.pinned p j).lower scheme = .ok p) ∧ (m.resolved p).lower scheme = .ok p := by
  refine ⟨lower_mapIds_pin h, ?_⟩
  rw [resolved_eq_pinned (lower_eq_ok h)]
  exact lower_mapIds_pin h _

/-- A fixed state that jumps out to two packed ones, of which the second is empty and declared
first. -/
def detour : Machine Unit :=
  { timers := []
    states :=
      [ { id := .symbolic "end", statements := [], transitions := [] },
        { id := .numeric 3
          statements := [.increment "X" (.leaf (.literal 1))]
          transitions := [{ condition := none, target := .symbolic "out" }] },
        { id := .symbolic "out"
          statements := []
          transitions :=
            [ { condition := some (.leaf (.name "X")), target := .symbolic "end" },
              { condition := none, target := .numeric 3 } ] } ] }

theorem lower_pinned_detour :
    ∃ p, detour.lower RegisterScheme.free = .ok p
      ∧ (detour.pinned p 1).ids = [.numeric 8, .numeric 3, .symbolic "out"]
      ∧ (detour.pinned p 1).targets = [.symbolic "out", .numeric 8, .numeric 3]
      ∧ (detour.pinned p 1).lower RegisterScheme.free = .ok p
      ∧ (detour.resolved p).ids = [.numeric 8, .numeric 3, .numeric 9]
      ∧ (detour.resolved p).lower RegisterScheme.free = .ok p := by
  have hpinned : ((detour.lower RegisterScheme.free).map fun p =>
      ((detour.pinned p 1).ids, (detour.pinned p 1).targets, (detour.resolved p).ids))
        = .ok ([.numeric 8, .numeric 3, .symbolic "out"],
            [.symbolic "out", .numeric 8, .numeric 3], [.numeric 8, .numeric 3, .numeric 9]) := by
    cbv
  cases h : detour.lower RegisterScheme.free with
  | error e =>
      rw [h] at hpinned
      cases hpinned
  | ok p =>
      rw [h] at hpinned
      obtain ⟨hfirst, hfixed⟩ := lower_pinned h
      simp only [Except.map, Except.ok.injEq, Prod.mk.injEq] at hpinned
      exact ⟨p, rfl, hpinned.1, hpinned.2.1, hfirst 1, hpinned.2.2, hfixed⟩

end Machine

end Microstep
