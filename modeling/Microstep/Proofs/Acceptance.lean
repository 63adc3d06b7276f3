import Microstep.Proofs.Addresses
import Microstep.Proofs.Agreement

/-!
# Which machines are lowered

Once expressions and ids are in order, four things are left that can fail, and each is a condition
on the source.

* `Machine.FixedOverflow` — a state with a numeric id reaches past the last address;
* `Machine.PackedOverflow` — a packed state does;
* `Machine.Overlap` — two states with numeric ids have an address in common;
* `Machine.Jumps` — a state jumps to an id, and no state has it.

The passes look for them in this order, so the first that occurs decides the error
(`Machine.lower_accepts`).  A packed state never collides with anything, which is why `Overlap` need
not mention them (`Machine.collisions_eq_nil_iff_overlap`).
-/

namespace Microstep

variable {ρ τ : Type}

namespace Machine

variable {m : Machine τ}

/-- The state `s` at index `k` has a numeric id, and its reserved slot is no address or the last
one. -/
def FixedOverflow (m : Machine τ) (k : Nat) (s : State) : Prop :=
  m.states[k]? = some s ∧ ∃ a, s.id = .numeric a ∧ UInt32.size - 1 < a.toNat + s.width + 1

/-- The state `s` at index `k` has a symbolic id, and what is packed up to it does not fit above the
floor. -/
def PackedOverflow (m : Machine τ) (k : Nat) (s : State) : Prop :=
  m.states[k]? = some s ∧ s.id.isNumeric = false
    ∧ UInt32.size - 1 < Placement.floor m.extents + Placement.packed (m.extents.take (k + 1))

/-- The states at two indices have numeric ids and an address in common, where an empty state still
takes up one address. -/
def Overlap (m : Machine τ) (i j : Nat) : Prop :=
  i ≠ j ∧ ∃ s t a b, m.states[i]? = some s ∧ s.id = .numeric a
    ∧ m.states[j]? = some t ∧ t.id = .numeric b
    ∧ a.toNat < b.toNat + max t.width 1 ∧ b.toNat < a.toNat + max s.width 1

/-- Some state jumps to `target`. -/
def Jumps (m : Machine τ) (target : StateId) : Prop :=
  ∃ s ∈ m.states, ∃ t ∈ s.transitions, t.target = target

/-! ## Overflows -/

/-- A state overflows with its numeric id exactly when its reach is no address. -/
lemma fixedOverflow_iff {k : Nat} {s : State} :
    m.FixedOverflow k s ↔
      m.states[k]? = some s ∧ ∃ r, s.extent.reach? = some r ∧ UInt32.size ≤ r := by
  refine and_congr_right fun _ => ?_
  constructor
  · rintro ⟨a, hid, hover⟩
    exact ⟨a.toNat + s.width + 1, Extent.reach?_numeric hid, by omega⟩
  · rintro ⟨r, hr, hover⟩
    obtain ⟨a, ha, rfl⟩ := Option.map_eq_some_iff.mp hr
    have hid : s.id = .numeric a := by
      cases hs : s.id with
      | numeric b =>
          rw [State.extent, hs] at ha
          rw [Option.some.inj ha]
      | symbolic l =>
          rw [State.extent, hs] at ha
          cases ha
    have hover' : UInt32.size ≤ a.toNat + s.width + 1 := hover
    exact ⟨a, hid, by omega⟩

lemma fixedOverflows_eq_nil_iff :
    Placement.fixedOverflows m.extents = [] ↔ ∀ k s, ¬ m.FixedOverflow k s := by
  rw [Placement.fixedOverflows_eq_nil_iff]
  constructor
  · intro h k s hover
    obtain ⟨hs, r, hr, hle⟩ := fixedOverflow_iff.mp hover
    have hlt := h s.extent (List.mem_map_of_mem (List.mem_of_getElem? hs)) r hr
    omega
  · intro h e he r hr
    obtain ⟨s, hs, rfl⟩ := List.mem_map.mp he
    obtain ⟨k, hk⟩ := List.mem_iff_getElem?.mp hs
    by_contra hlt
    exact h k s (fixedOverflow_iff.mpr ⟨hk, r, hr, Nat.not_lt.mp hlt⟩)

/-- The first state that overflows with its numeric id is told. -/
lemma head?_fixedOverflows {k : Nat} {s : State} (hover : m.FixedOverflow k s)
    (hfirst : ∀ j < k, ∀ s', ¬ m.FixedOverflow j s') :
    (Placement.fixedOverflows m.extents).head? = some (.addressOverflow s.id) := by
  obtain ⟨hs, r, hr, hle⟩ := fixedOverflow_iff.mp hover
  refine Placement.head?_fixedOverflows (getElem?_extents hs) hr hle fun j hj e' r' he' hr' => ?_
  obtain ⟨s', hs', rfl⟩ := exists_state_of_extent he'
  by_contra hlt
  exact hfirst j hj s' (fixedOverflow_iff.mpr ⟨hs', r', hr', Nat.not_lt.mp hlt⟩)

/-- A state that cannot be packed is one whose extent cannot. -/
lemma packedOverflow_extents_iff {k : Nat} {e : Extent} :
    Placement.PackedOverflow (Placement.floor m.extents) m.extents k e ↔
      ∃ s, s.extent = e ∧ m.PackedOverflow k s := by
  rw [Placement.PackedOverflow, extents, List.getElem?_map, Option.map_eq_some_iff]
  constructor
  · rintro ⟨⟨s, hs, rfl⟩, hid, hle⟩
    exact ⟨s, rfl, hs, hid, Nat.sub_one_lt_of_le (by decide) hle⟩
  · rintro ⟨s, rfl, hs, hid, hlt⟩
    exact ⟨⟨s, hs, rfl⟩, hid, Nat.le_of_pred_lt hlt⟩

lemma packedOverflows_eq_nil_iff :
    Placement.packedOverflows (Placement.floor m.extents) m.extents = []
      ↔ ∀ k s, ¬ m.PackedOverflow k s := by
  rw [Placement.packedOverflows_eq_nil_iff]
  constructor
  · intro h k s hover
    exact h k s.extent (packedOverflow_extents_iff.mpr ⟨s, rfl, hover⟩)
  · intro h k e hover
    obtain ⟨s, _, hs⟩ := packedOverflow_extents_iff.mp hover
    exact h k s hs

/-- The first state that cannot be packed is told. -/
lemma head?_packedOverflows {k : Nat} {s : State} (hover : m.PackedOverflow k s)
    (hfirst : ∀ j < k, ∀ s', ¬ m.PackedOverflow j s') :
    (Placement.packedOverflows (Placement.floor m.extents) m.extents).head?
      = some (.addressOverflow s.id) := by
  have hover' := packedOverflow_extents_iff.mpr ⟨s, rfl, hover⟩
  refine Placement.head?_packedOverflows hover' fun j hj e he => ?_
  obtain ⟨s', _, hs'⟩ := packedOverflow_extents_iff.mp he
  exact hfirst j hj s' hs'

/-- Without repeated ids and overflows, addresses are assigned. -/
lemma assign_of_fits (hdup : m.duplicates = []) (hfixed : ∀ k s, ¬ m.FixedOverflow k s)
    (hpacked : ∀ k s, ¬ m.PackedOverflow k s) :
    ∃ addresses, Placement.assign m.extents = .ok addresses := by
  have h := Placement.assign_failsFirst m.extents
  rw [duplicates] at hdup
  rwa [Placement.faults, map_id_extents, hdup, fixedOverflows_eq_nil_iff.mpr hfixed,
    packedOverflows_eq_nil_iff.mpr hpacked] at h

/-! ## Collisions -/

lemma position_numeric {k : Nat} {s : State} {a : Address} (hid : s.id = .numeric a) :
    Placement.position m.extents k s.extent = a.toNat :=
  Placement.positionFrom_numeric hid _ _ _

/-- **Only states with numeric ids collide.**  A packed state lies apart from every other, so the
sweep finds something exactly when two numeric ids lie too close. -/
theorem collisions_eq_nil_iff_overlap {addresses : List Address}
    (h : Placement.assign m.extents = .ok addresses) :
    Footprint.collisions m.footprints = [] ↔ ∀ i j, ¬ m.Overlap i j := by
  rw [Footprint.collisions_eq_nil_iff (Lowered.nonempty_footprints h),
    Footprint.pairwise_disjoint_iff]
  constructor
  · rintro hdisjoint i j ⟨hij, s, t, a, b, hs, hida, ht, hidb, hab, hba⟩
    have hst := hdisjoint hij (Lowered.getElem?_footprints hs) (Lowered.getElem?_footprints ht)
    rw [Footprint.Disjoint, Lowered.toNat_start_footprint h hs,
      Lowered.toNat_start_footprint h ht, position_numeric hida, position_numeric hidb] at hst
    dsimp only at hst
    omega
  · intro hapart i j f g hij hf hg
    obtain ⟨s, hs⟩ := Lowered.exists_state_of_footprint hf
    obtain ⟨t, ht⟩ := Lowered.exists_state_of_footprint hg
    rw [Lowered.getElem?_footprints hs] at hf
    rw [Lowered.getElem?_footprints ht] at hg
    cases hf
    cases hg
    rw [Footprint.Disjoint, Lowered.toNat_start_footprint h hs,
      Lowered.toNat_start_footprint h ht]
    dsimp only
    have hes := getElem?_extents hs
    have het := getElem?_extents ht
    have hws : s.extent.width = s.width := rfl
    have hwt : t.extent.width = t.width := rfl
    cases hids : s.id with
    | symbolic l =>
        have hsep := Placement.position_separated hij hes het hids
        omega
    | numeric a =>
        cases hidt : t.id with
        | symbolic l =>
            have hsep := Placement.position_separated hij.symm het hes hidt
            omega
        | numeric b =>
            rw [position_numeric hids, position_numeric hidt]
            have hno := hapart i j
            by_contra hmeet
            exact hno ⟨hij, s, t, a, b, hs, hids, ht, hidt, by omega, by omega⟩

/-- If two states with numeric ids overlap, a collision is told. -/
lemma exists_collision {addresses : List Address}
    (h : Placement.assign m.extents = .ok addresses) {i j : Nat} (hover : m.Overlap i j) :
    ∃ first second address,
      (Footprint.collisions m.footprints).head?
        = some (.addressCollision first second address) := by
  cases hcol : Footprint.collision? m.footprints with
  | some p =>
      refine ⟨p.1.id, p.2.id, p.2.start, ?_⟩
      rw [Footprint.collisions, hcol]
      rfl
  | none =>
      have hnil : Footprint.collisions m.footprints = [] := by
        rw [Footprint.collisions, hcol]
        rfl
      exact absurd hover ((collisions_eq_nil_iff_overlap h).mp hnil i j)

/-! ## Jumps -/

lemma unresolved_eq_nil_iff : m.unresolved = [] ↔ ∀ target, m.Jumps target → target ∈ m.ids := by
  rw [unresolved, List.flatMap_eq_nil_iff]
  constructor
  · rintro h _ ⟨s, hs, t, ht, rfl⟩
    have hs' := h s hs
    rw [List.map_eq_nil_iff, List.filter_eq_nil_iff] at hs'
    simpa using hs' t ht
  · intro h s hs
    rw [List.map_eq_nil_iff, List.filter_eq_nil_iff]
    intro t ht
    simpa using h t.target ⟨s, hs, t, ht, rfl⟩

/-- If a state jumps to nowhere, a jump to nowhere is told. -/
lemma exists_unresolved {target : StateId} (hjump : m.Jumps target) (hno : target ∉ m.ids) :
    ∃ label state, m.unresolved.head? = some (.unresolvedLabel label state) := by
  cases hun : m.unresolved with
  | nil => exact absurd (unresolved_eq_nil_iff.mp hun target hjump) hno
  | cons e rest =>
      have hmem : e ∈ m.unresolved := by rw [hun]; exact List.mem_cons_self
      obtain ⟨s, _, he⟩ := List.mem_flatMap.mp hmem
      obtain ⟨t, _, rfl⟩ := List.mem_map.mp he
      exact ⟨t.target, s.id, rfl⟩

/-! ## The order of the errors -/

/-- **Which machines are lowered, and what is told about the others**, for machines with expressions
and ids in order whose states are not too wide.  A numeric id that does not fit comes first, then a
state that cannot be packed, each time the first one; then an overlap, then a jump to nowhere.  If
there is none of these the machine is lowered.  Once addresses are assigned, every state has a
footprint: the overflow that the check for collisions could tell never occurs. -/
theorem lower_accepts (scheme : RegisterScheme ρ) (m : Machine τ)
    (hfit : ∀ s ∈ m.states, s.width < UInt32.size)
    (hmal : ∀ state cause, .malformedExpression state cause ∉ m.check)
    (hdup : ∀ label, .duplicateLabel label ∉ m.check) :
    (∀ k s, m.FixedOverflow k s → (∀ j < k, ∀ s', ¬ m.FixedOverflow j s') →
      m.lower scheme = .error (.addressOverflow s.id))
    ∧ ((∀ k s, ¬ m.FixedOverflow k s) →
        (∀ k s, m.PackedOverflow k s → (∀ j < k, ∀ s', ¬ m.PackedOverflow j s') →
          m.lower scheme = .error (.addressOverflow s.id))
        ∧ ((∀ k s, ¬ m.PackedOverflow k s) →
            ((∃ i j, m.Overlap i j) → ∃ first second address,
              m.lower scheme = .error (.addressCollision first second address))
            ∧ ((∀ i j, ¬ m.Overlap i j) →
                ((∃ target, m.Jumps target ∧ target ∉ m.ids) →
                  ∃ label state, m.lower scheme = .error (.unresolvedLabel label state))
                ∧ ((∀ target, m.Jumps target → target ∈ m.ids) →
                    ∃ p, m.lower scheme = .ok p))))
    ∧ ((∃ p, m.lower scheme = .ok p) ↔
        (∀ k s, ¬ m.FixedOverflow k s) ∧ (∀ k s, ¬ m.PackedOverflow k s)
          ∧ (∀ i j, ¬ m.Overlap i j) ∧ ∀ target, m.Jumps target → target ∈ m.ids)
    ∧ (∀ addresses, Placement.assign m.extents = .ok addresses →
        ∃ fs, Footprint.ofExtents m.extents addresses = .ok fs) := by
  have hmalformed : m.malformed = [] := malformed_eq_nil_iff.mpr fun e he => by
    cases e with
    | malformedExpression state cause => exact absurd he (hmal state cause)
    | _ => rfl
  have hduplicates : m.duplicates = [] := duplicates_eq_nil_iff.mpr fun e he => by
    cases e with
    | duplicateLabel label => exact absurd he (hdup label)
    | _ => rfl
  have hfaults := lower_failsFirst_of_sound scheme hfit hmalformed hduplicates
  rw [addressFaults] at hfaults
  refine ⟨?_, ?_, ?_, ?_⟩
  · intro k s hover hfirst
    refine hfaults.eq_error ?_
    rw [List.append_assoc, List.head?_append, head?_fixedOverflows hover hfirst, Option.some_or]
  · intro hfixed
    rw [fixedOverflows_eq_nil_iff.mpr hfixed, List.nil_append] at hfaults
    refine ⟨fun k s hover hfirst => ?_, fun hpacked => ?_⟩
    · refine hfaults.eq_error ?_
      rw [List.append_assoc, List.head?_append, head?_packedOverflows hover hfirst,
        Option.some_or]
    · rw [packedOverflows_eq_nil_iff.mpr hpacked, List.nil_append] at hfaults
      obtain ⟨addresses, haddresses⟩ := assign_of_fits hduplicates hfixed hpacked
      refine ⟨?_, fun hapart => ?_⟩
      · rintro ⟨i, j, hover⟩
        obtain ⟨first, second, address, hhead⟩ := exists_collision haddresses hover
        refine ⟨first, second, address, hfaults.eq_error ?_⟩
        rw [List.head?_append, hhead, Option.some_or]
      · rw [(collisions_eq_nil_iff_overlap haddresses).mpr hapart, List.nil_append] at hfaults
        refine ⟨?_, fun hdeclared => ?_⟩
        · rintro ⟨target, hjump, hno⟩
          obtain ⟨label, state, hhead⟩ := exists_unresolved hjump hno
          exact ⟨label, state, hfaults.eq_error hhead⟩
        · rw [unresolved_eq_nil_iff.mpr hdeclared] at hfaults
          exact hfaults
  · constructor
    · rintro ⟨p, hp⟩
      have hnil := hfaults.eq_nil hp
      simp only [List.append_eq_nil_iff] at hnil
      obtain ⟨⟨hfixed, hpacked, hcollisions⟩, hunresolved⟩ := hnil
      have hassign := (lower_eq_ok hp).assign_eq
      exact ⟨fixedOverflows_eq_nil_iff.mp hfixed, packedOverflows_eq_nil_iff.mp hpacked,
        (collisions_eq_nil_iff_overlap hassign).mp hcollisions,
        unresolved_eq_nil_iff.mp hunresolved⟩
    · rintro ⟨hfixed, hpacked, hapart, hdeclared⟩
      obtain ⟨addresses, haddresses⟩ := assign_of_fits hduplicates hfixed hpacked
      rw [fixedOverflows_eq_nil_iff.mpr hfixed, packedOverflows_eq_nil_iff.mpr hpacked,
        (collisions_eq_nil_iff_overlap haddresses).mpr hapart,
        unresolved_eq_nil_iff.mpr hdeclared] at hfaults
      exact hfaults
  · intro addresses haddresses
    exact ⟨m.footprints, ofExtents_eq_ok haddresses⟩

/-- A machine close below the last address: two numeric ids that overlap, an empty packed state that
just fits, one that does not, and a jump to nowhere. -/
def crowded : Machine Unit :=
  { timers := []
    states :=
      [ { id := .numeric 4294967290
          statements := [.increment "X" (.leaf (.name "Y"))]
          transitions := [] },
        { id := .numeric 4294967291, statements := [], transitions := [] },
        { id := .symbolic "last", statements := [], transitions := [] },
        { id := .symbolic "over"
          statements := []
          transitions := [{ condition := none, target := .symbolic "nowhere" }] } ] }

theorem lower_accepts_crowded :
    (∀ s ∈ crowded.states, s.width < UInt32.size)
      ∧ crowded.check = [.unresolvedLabel (.symbolic "nowhere") (.symbolic "over")]
      ∧ crowded.Overlap 0 1
      ∧ crowded.lower RegisterScheme.free = .error (.addressOverflow (.symbolic "over")) := by
  have hfit : ∀ s ∈ crowded.states, s.width < UInt32.size := by decide
  have hcheck : crowded.check = [.unresolvedLabel (.symbolic "nowhere") (.symbolic "over")] := by
    decide
  have hfixed : ∀ k s, ¬ crowded.FixedOverflow k s :=
    fixedOverflows_eq_nil_iff.mp (by decide)
  have hpacked : crowded.PackedOverflow 3 _ := ⟨rfl, rfl, by decide⟩
  have hfirst : ∀ j < 3, ∀ s, ¬ crowded.PackedOverflow j s := by
    rintro j hj s ⟨hs, hid, hover⟩
    interval_cases j
    · cases hs
      cases hid
    · cases hs
      cases hid
    · revert hover
      decide
  refine ⟨hfit, hcheck, ⟨by decide, _, _, _, _, rfl, rfl, rfl, rfl, by decide, by decide⟩, ?_⟩
  refine ((lower_accepts RegisterScheme.free crowded hfit ?_ ?_).2.1 hfixed).1 3 _ hpacked hfirst
  · simp [hcheck]
  · simp [hcheck]

end Machine

end Microstep
