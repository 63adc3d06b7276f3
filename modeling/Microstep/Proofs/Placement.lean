import Microstep.Lowering.Placement
import Microstep.Proofs.Sequencing

/-!
# Where states are placed

The passes that place states, against closed forms.

**Footprints.**  The sweep compares every footprint with one other only, after sorting.
`collision?_eq_none_iff` says that this finds a collision exactly when any two footprints meet.

**Addresses.**  `Placement.floor` is the first address after all states with numeric ids, and
`Placement.packed` what states with symbolic ids take up, reserved slots included.  The `k`-th state
lies at `Placement.position extents k`, which is its numeric id or the floor and what is packed
before it.  `Placement.assign_eq_ok` says that the addresses assigned are these,
`Placement.assign_eq_ok_of_position` that they are assigned, and `Placement.assign_failsFirst` what
else can happen.

**Separation.**  A packed state lies above every numeric one, and above every packed one before it
together with its reserved slot (`Placement.position_separated`).
-/

namespace Microstep

/-- Moving on from an address does not stop at the last one if that is not reached. -/
lemma Address.toNat_advance {a : Address} {w : Nat} (h : a.toNat + w < UInt32.size) :
    (a.advance w).toNat = a.toNat + w := by
  have hw : (UInt32.ofNat w).toNat = w := UInt32.toNat_ofNat_of_lt (by omega)
  rw [Address.advance, hw, Nat.min_eq_left (by omega)]
  exact UInt32.toNat_ofNat_of_lt h

/-! ## Footprints -/

namespace Footprint

/-- Whether two footprints have no address in common, the first below or above the second. -/
def Disjoint (f g : Footprint) : Prop := f.stop ≤ g.start.toNat ∨ g.stop ≤ f.start.toNat

lemma Disjoint.symm {f g : Footprint} (h : f.Disjoint g) : g.Disjoint f := Or.symm h

lemma perm_byStart (fs : List Footprint) : (byStart fs).Perm fs := List.mergeSort_perm fs _

lemma pairwise_byStart (fs : List Footprint) :
    (byStart fs).Pairwise fun f g => f.start.toNat ≤ g.start.toNat := by
  have h := @List.pairwise_mergeSort _ (fun f g : Footprint => f.start.toNat ≤ g.start.toNat)
    (fun f g k => by simp only [decide_eq_true_eq]; omega)
    (fun f g => by simp only [Bool.or_eq_true, decide_eq_true_eq]; omega) fs
  simpa only [byStart, decide_eq_true_eq] using h

/-- A footprint that starts after the furthest one has stopped reaches further, if it is not
empty. -/
lemma sweep?_cons_of_le {furthest f : Footprint} (hle : furthest.stop ≤ f.start.toNat)
    (hne : f.start.toNat < f.stop) (rest : List Footprint) :
    sweep? furthest (f :: rest) = sweep? f rest := by
  rw [sweep?, if_neg (by omega), if_pos (by omega)]

/-- The sweep finds nothing exactly when every footprint stops before all that follow. -/
lemma sweep?_eq_none_iff {rest : List Footprint} (hne : ∀ f ∈ rest, f.start.toNat < f.stop) :
    ∀ {furthest : Footprint}, sweep? furthest rest = none ↔
      (furthest :: rest).Pairwise fun f g => f.stop ≤ g.start.toNat := by
  induction rest with
  | nil => simp [sweep?]
  | cons f rest ih =>
      intro furthest
      obtain ⟨hf, hrest⟩ := List.forall_mem_cons.mp hne
      rw [List.pairwise_cons, List.forall_mem_cons]
      rcases Nat.lt_or_ge f.start.toNat furthest.stop with hmeet | hle
      · rw [sweep?, if_pos hmeet]
        simp [hmeet]
      · rw [sweep?_cons_of_le hle hf, ih hrest]
        refine ⟨fun h => ⟨⟨hle, fun g hg => ?_⟩, h⟩, fun h => h.2⟩
        have hfg := (List.pairwise_cons.mp h).1 g hg
        omega

/-- **The sweep stops at the first footprint that meets another**, and tells the one ahead of it:
until then every footprint reaches further than those before. -/
lemma sweep?_eq_some {rest : List Footprint} (hne : ∀ f ∈ rest, f.start.toNat < f.stop)
    {f g : Footprint} :
    ∀ {furthest : Footprint}, sweep? furthest rest = some (f, g) →
      ∃ before after, furthest :: rest = before ++ f :: g :: after
        ∧ ((before ++ [f]).Pairwise fun f g => f.stop ≤ g.start.toNat)
        ∧ g.start.toNat < f.stop := by
  induction rest with
  | nil => simp [sweep?]
  | cons f' rest ih =>
      intro furthest h
      obtain ⟨hf', hrest⟩ := List.forall_mem_cons.mp hne
      rcases Nat.lt_or_ge f'.start.toNat furthest.stop with hmeet | hle
      · rw [sweep?, if_pos hmeet] at h
        cases h
        exact ⟨[], rest, rfl, List.pairwise_singleton _ _, hmeet⟩
      · rw [sweep?_cons_of_le hle hf'] at h
        obtain ⟨before, after, hsplit, hpairwise, hfg⟩ := ih hrest h
        refine ⟨furthest :: before, after, by rw [hsplit]; rfl, ?_, hfg⟩
        refine List.pairwise_cons.mpr ⟨fun x hx => ?_, hpairwise⟩
        -- `x` is the next footprint or lies behind it
        cases before with
        | nil =>
            cases hsplit
            obtain rfl := List.mem_singleton.mp hx
            exact hle
        | cons b before =>
            cases hsplit
            rcases List.mem_cons.mp hx with rfl | hx
            · exact hle
            · have hfx := (List.pairwise_cons.mp hpairwise).1 x hx
              omega

/-- **The sweep misses nothing.**  Footprints that are not empty are disjoint exactly when it finds
no collision. -/
theorem collision?_eq_none_iff {fs : List Footprint} (hne : ∀ f ∈ fs, f.start.toNat < f.stop) :
    collision? fs = none ↔ fs.Pairwise Disjoint := by
  have hne' : ∀ f ∈ byStart fs, f.start.toNat < f.stop :=
    fun f hf => hne f ((perm_byStart fs).mem_iff.mp hf)
  have hsweep : collision? fs = none ↔ (byStart fs).Pairwise fun f g => f.stop ≤ g.start.toNat := by
    rw [collision?]
    cases hsorted : byStart fs with
    | nil => simp
    | cons first rest =>
        rw [hsorted, List.forall_mem_cons] at hne'
        exact sweep?_eq_none_iff hne'.2
  rw [hsweep, ← (perm_byStart fs).pairwise_iff fun h => h.symm]
  constructor
  · intro h
    exact h.imp fun hfg => Or.inl hfg
  · intro h
    refine ((pairwise_byStart fs).and h).imp_of_mem fun {f g} _ hg hfg => ?_
    obtain ⟨hle, hfg | hgf⟩ := hfg
    · exact hfg
    · have hg' := hne' g hg
      omega

/-- A symmetric relation holds along a list if it holds between any two different indices. -/
lemma pairwise_iff_of_symm {R : Footprint → Footprint → Prop} (hsymm : ∀ {f g}, R f g → R g f)
    {fs : List Footprint} :
    fs.Pairwise R ↔
      ∀ {i j : Nat} {f g : Footprint}, i ≠ j → fs[i]? = some f → fs[j]? = some g → R f g := by
  rw [List.pairwise_iff_getElem]
  constructor
  · intro h i j f g hij hf hg
    obtain ⟨hi, rfl⟩ := List.getElem?_eq_some_iff.mp hf
    obtain ⟨hj, rfl⟩ := List.getElem?_eq_some_iff.mp hg
    rcases Nat.lt_or_gt_of_ne hij with hlt | hgt
    · exact h i j hi hj hlt
    · exact hsymm (h j i hj hi hgt)
  · intro h i j hi hj hij
    exact h (Nat.ne_of_lt hij) (List.getElem?_eq_getElem hi) (List.getElem?_eq_getElem hj)

/-- Footprints are disjoint if any two at different indices are. -/
lemma pairwise_disjoint_iff {fs : List Footprint} :
    fs.Pairwise Disjoint ↔
      ∀ {i j : Nat} {f g : Footprint}, i ≠ j → fs[i]? = some f → fs[j]? = some g →
        f.Disjoint g :=
  pairwise_iff_of_symm Disjoint.symm

/-- What the check for collisions raises. -/
def collisions (fs : List Footprint) : List LowerError :=
  (collision? fs).toList.map fun p => .addressCollision p.1.id p.2.id p.2.start

lemma checkDisjoint_failsFirst (fs : List Footprint) :
    FailsFirst (checkDisjoint fs) (collisions fs) := by
  unfold checkDisjoint collisions
  cases collision? fs with
  | none => exact FailsFirst.of_ok ()
  | some p => exact rfl

lemma collisions_eq_nil_iff {fs : List Footprint} (hne : ∀ f ∈ fs, f.start.toNat < f.stop) :
    collisions fs = [] ↔ fs.Pairwise Disjoint := by
  rw [← collision?_eq_none_iff hne, collisions]
  cases collision? fs <;> simp

/-- A state whose reserved slot is an address has a footprint, from its address for as many
addresses as it is wide, but at least one. -/
lemma ofExtent_eq_ok {e : Extent} {a : Address} (h : a.toNat + e.width + 1 < UInt32.size) :
    ofExtent e a = .ok { id := e.id, start := a, stop := a.toNat + max e.width 1 } := by
  rw [ofExtent, if_pos (by omega), Address.toNat_advance (by omega), Nat.add_max_add_left]

/-- The footprints of states whose reserved slots are addresses. -/
lemma ofExtents_eq_ok {extents : List Extent} {addresses : List Address}
    (h : ∀ p ∈ extents.zip addresses, p.2.toNat + p.1.width + 1 < UInt32.size) :
    ofExtents extents addresses
      = .ok ((extents.zip addresses).map fun p =>
          { id := p.1.id, start := p.2, stop := p.2.toNat + max p.1.width 1 }) := by
  rw [ofExtents, mapM_eq_ok_iff, List.forall₂_map_right_iff, List.forall₂_same]
  intro p hp
  exact ofExtent_eq_ok (h p hp)

end Footprint

/-! ## The floor -/

/-- The first address after a state with a numeric id and its reserved slot. -/
def Extent.reach? (e : Extent) : Option Nat := e.id.address?.map fun a => a.toNat + e.width + 1

lemma Extent.reach?_numeric {e : Extent} {a : Address} (h : e.id = .numeric a) :
    e.reach? = some (a.toNat + e.width + 1) := by
  rw [Extent.reach?, h]
  rfl

lemma Extent.reach?_symbolic {e : Extent} {l : String} (h : e.id = .symbolic l) :
    e.reach? = none := by
  rw [Extent.reach?, h]
  rfl

namespace Placement

/-- **The floor**: zero if no id is numeric, otherwise the highest reach. -/
def floor (extents : List Extent) : Nat := (extents.filterMap Extent.reach?).max?.getD 0

/-- The overflows of states with numeric ids. -/
def fixedOverflows (extents : List Extent) : List LowerError :=
  (extents.filter fun e => e.reach?.any (UInt32.size ≤ ·)).map fun e => .addressOverflow e.id

lemma floor_cons_numeric {e : Extent} {n : Nat} (h : e.reach? = some n) (rest : List Extent) :
    floor (e :: rest) = max n (floor rest) := by
  rw [floor, floor, List.filterMap_cons_some h, List.max?_cons]
  cases (rest.filterMap Extent.reach?).max? <;> simp

lemma floor_cons_symbolic {e : Extent} (h : e.reach? = none) (rest : List Extent) :
    floor (e :: rest) = floor rest := by
  rw [floor, floor, List.filterMap_cons_none h]

/-- Every state with a numeric id lies below the floor, reserved slot included. -/
lemma reach_le_floor {extents : List Extent} {e : Extent} {n : Nat} (he : e ∈ extents)
    (hn : e.reach? = some n) : n ≤ floor extents := by
  induction extents with
  | nil => cases he
  | cons e' rest ih =>
      cases h : e'.reach? with
      | some n' =>
          rw [floor_cons_numeric h]
          rcases List.mem_cons.mp he with rfl | he
          · rw [hn] at h
            cases h
            exact le_max_left _ _
          · exact le_trans (ih he) (le_max_right _ _)
      | none =>
          rw [floor_cons_symbolic h]
          rcases List.mem_cons.mp he with rfl | he
          · rw [hn] at h
            cases h
          · exact ih he

/-- The floor is the least bound on what states with numeric ids reach. -/
lemma floor_le_iff {extents : List Extent} {n : Nat} :
    floor extents ≤ n ↔ ∀ e ∈ extents, ∀ r, e.reach? = some r → r ≤ n := by
  constructor
  · intro h e he r hr
    exact (reach_le_floor he hr).trans h
  · intro h
    induction extents with
    | nil => exact Nat.zero_le n
    | cons e rest ih =>
        obtain ⟨he, hrest⟩ := List.forall_mem_cons.mp h
        cases hr : e.reach? with
        | none =>
            rw [floor_cons_symbolic hr]
            exact ih hrest
        | some r =>
            rw [floor_cons_numeric hr]
            exact Nat.max_le.mpr ⟨he r hr, ih hrest⟩

/-- One step of the pass that looks for the floor. -/
def baseStep (base : Nat) (e : Extent) : Except LowerError Nat :=
  match e.id with
  | .numeric a => do return max base (← e.next a.toNat)
  | .symbolic _ => pure base

lemma fixedOverflows_singleton (e : Extent) :
    fixedOverflows [e]
      = if e.reach?.any (UInt32.size ≤ ·) then [.addressOverflow e.id] else [] := by
  rw [fixedOverflows, List.filter_singleton]
  cases e.reach?.any (UInt32.size ≤ ·) <;> rfl

lemma baseStep_failsFirst (b : Nat) (e : Extent) :
    FailsFirst (baseStep b e) (fixedOverflows [e]) := by
  rw [baseStep, fixedOverflows_singleton]
  cases hid : e.id with
  | symbolic l =>
      rw [Extent.reach?_symbolic hid]
      exact FailsFirst.of_ok b
  | numeric a =>
      rw [Extent.reach?_numeric hid, Option.any_some]
      refine FailsFirst.bind_pure ?_
      unfold Extent.next
      split_ifs with hfit hover hover
      · rw [decide_eq_true_eq] at hover
        omega
      · exact FailsFirst.of_ok _
      · rw [hid]
        exact rfl
      · rw [decide_eq_true_eq] at hover
        omega

lemma baseStep_eq_ok {b n : Nat} {e : Extent} (h : baseStep b e = .ok n) :
    n = max b (e.reach?.getD 0) := by
  unfold baseStep at h
  cases hid : e.id with
  | symbolic l =>
      rw [hid] at h
      cases h
      rw [Extent.reach?_symbolic hid, Option.getD_none, Nat.max_zero]
  | numeric a =>
      simp only [hid, bind_eq_ok_iff, Extent.next_eq_ok_iff] at h
      obtain ⟨_, ⟨_, rfl⟩, h⟩ := h
      cases h
      rw [Extent.reach?_numeric hid, Option.getD_some]

lemma foldlM_baseStep_failsFirst :
    ∀ (extents : List Extent) (b : Nat),
      FailsFirst (extents.foldlM baseStep b) (fixedOverflows extents)
  | [], b => FailsFirst.of_ok b
  | e :: rest, b => by
      have hsplit : fixedOverflows (e :: rest) = fixedOverflows [e] ++ fixedOverflows rest := by
        rw [fixedOverflows, fixedOverflows, fixedOverflows, ← List.map_append,
          ← List.filter_append, List.singleton_append]
      rw [List.foldlM_cons, hsplit]
      exact (baseStep_failsFirst b e).bind fun n _ => foldlM_baseStep_failsFirst rest n

lemma foldlM_baseStep_eq_ok :
    ∀ {extents : List Extent} {b n : Nat}, extents.foldlM baseStep b = .ok n →
      n = max b (floor extents)
  | [], b, n, h => by
      cases h
      exact (Nat.max_zero b).symm
  | e :: rest, b, n, h => by
      rw [List.foldlM_cons, bind_eq_ok_iff] at h
      obtain ⟨b', hb', hn⟩ := h
      rw [foldlM_baseStep_eq_ok hn, baseStep_eq_ok hb']
      cases he : e.reach? with
      | some r => rw [floor_cons_numeric he, Option.getD_some, Nat.max_assoc]
      | none => rw [floor_cons_symbolic he, Option.getD_none, Nat.max_zero]

lemma base_failsFirst (extents : List Extent) :
    FailsFirst (base extents) (fixedOverflows extents) :=
  foldlM_baseStep_failsFirst extents 0

lemma base_eq_ok {extents : List Extent} {n : Nat} (h : base extents = .ok n) :
    n = floor extents := by
  rw [foldlM_baseStep_eq_ok h, Nat.zero_max]

lemma fixedOverflows_eq_nil_iff {extents : List Extent} :
    fixedOverflows extents = [] ↔ ∀ e ∈ extents, ∀ r, e.reach? = some r → r < UInt32.size := by
  rw [fixedOverflows, List.map_eq_nil_iff, List.filter_eq_nil_iff]
  refine forall₂_congr fun e _ => ?_
  cases e.reach? <;> simp

/-- **The first state with a numeric id that does not fit is told.** -/
lemma head?_fixedOverflows {extents : List Extent} {k : Nat} {e : Extent} {r : Nat}
    (he : extents[k]? = some e) (hr : e.reach? = some r) (hover : UInt32.size ≤ r)
    (hfirst : ∀ j < k, ∀ e' r', extents[j]? = some e' → e'.reach? = some r' → r' < UInt32.size) :
    (fixedOverflows extents).head? = some (.addressOverflow e.id) := by
  have hfind : extents.find? (fun e => e.reach?.any (UInt32.size ≤ ·)) = some e := by
    rw [List.find?_eq_some_iff_getElem]
    obtain ⟨hk, rfl⟩ := List.getElem?_eq_some_iff.mp he
    refine ⟨by simpa [hr] using hover, k, hk, rfl, fun j hj => ?_⟩
    cases hr' : (extents[j]).reach? with
    | none => rfl
    | some r' =>
        have hlt := hfirst j hj _ r' (List.getElem?_eq_getElem _) hr'
        simpa using hlt
  rw [fixedOverflows, List.head?_map, List.head?_filter, hfind]
  rfl

/-- Where the floor was found, every numeric state's reserved slot is an address. -/
lemma reach_lt_of_base {extents : List Extent} {n : Nat} (h : base extents = .ok n) {e : Extent}
    {r : Nat} (he : e ∈ extents) (hr : e.reach? = some r) : r < UInt32.size := by
  have hnil : fixedOverflows extents = [] := (base_failsFirst extents).eq_nil h
  exact fixedOverflows_eq_nil_iff.mp hnil e he r hr

/-! ## Packing -/

/-- What the states with symbolic ids take up, each with its reserved slot. -/
def packed (extents : List Extent) : Nat :=
  ((extents.filter fun e => !e.id.isNumeric).map fun e => e.width + 1).sum

/-- The overflows of states with symbolic ids that are packed from `cursor` on. -/
def packedOverflows (cursor : Nat) : List Extent → List LowerError
  | [] => []
  | e :: rest => match e.id with
    | .numeric _ => packedOverflows cursor rest
    | .symbolic _ =>
      (if cursor + e.width + 1 < UInt32.size then [] else [.addressOverflow e.id])
        ++ packedOverflows (cursor + e.width + 1) rest

lemma packed_cons_numeric {e : Extent} {a : Address} (h : e.id = .numeric a)
    (rest : List Extent) : packed (e :: rest) = packed rest := by
  simp [packed, StateId.isNumeric, h]

lemma packed_cons_symbolic {e : Extent} {l : String} (h : e.id = .symbolic l)
    (rest : List Extent) : packed (e :: rest) = e.width + 1 + packed rest := by
  simp [packed, StateId.isNumeric, h]

lemma packed_append (front back : List Extent) :
    packed (front ++ back) = packed front + packed back := by
  simp [packed]

lemma packed_take_le (extents : List Extent) {j k : Nat} (h : j ≤ k) :
    packed (extents.take j) ≤ packed (extents.take k) := by
  have hsplit := List.take_append_drop j (extents.take k)
  rw [List.take_take, Nat.min_eq_left h] at hsplit
  rw [← hsplit, packed_append]
  exact Nat.le_add_right _ _

lemma packed_take_succ {extents : List Extent} {k : Nat} {e : Extent} {l : String}
    (he : extents[k]? = some e) (hid : e.id = .symbolic l) :
    packed (extents.take (k + 1)) = packed (extents.take k) + (e.width + 1) := by
  rw [List.take_add_one, he, packed_append, Option.toList_some, packed_cons_symbolic hid]
  rfl

lemma packed_take_add_one (extents : List Extent) (k : Nat) :
    packed (extents.take (k + 1)) = packed (extents.take k) + packed extents[k]?.toList := by
  rw [List.take_add_one, packed_append]

lemma pack_failsFirst :
    ∀ (extents : List Extent) (cursor : Nat),
      FailsFirst (pack cursor extents) (packedOverflows cursor extents)
  | [], _ => FailsFirst.of_ok []
  | e :: rest, cursor => by
      rw [pack, packedOverflows]
      cases hid : e.id with
      | numeric a => exact (pack_failsFirst rest cursor).bind_pure
      | symbolic l =>
          dsimp only
          have hnext : FailsFirst (e.next cursor)
              (if cursor + e.width + 1 < UInt32.size then [] else [.addressOverflow e.id]) := by
            unfold Extent.next
            split_ifs
            · exact FailsFirst.of_ok _
            · exact rfl
          rw [← hid]
          refine hnext.bind fun n hn => ?_
          rw [((e.next_eq_ok_iff cursor n).mp hn).2]
          exact (pack_failsFirst rest (cursor + e.width + 1)).bind_pure

/-- Where the state `e` at index `k` lies, if packing starts at `cursor`. -/
def positionFrom (cursor : Nat) (extents : List Extent) (k : Nat) (e : Extent) : Nat :=
  match e.id with
  | .numeric a => a.toNat
  | .symbolic _ => cursor + packed (extents.take k)

lemma positionFrom_numeric {e : Extent} {a : Address} (h : e.id = .numeric a) (cursor : Nat)
    (extents : List Extent) (k : Nat) : positionFrom cursor extents k e = a.toNat := by
  rw [positionFrom, h]

lemma positionFrom_symbolic {e : Extent} {l : String} (h : e.id = .symbolic l) (cursor : Nat)
    (extents : List Extent) (k : Nat) :
    positionFrom cursor extents k e = cursor + packed (extents.take k) := by
  rw [positionFrom, h]

/-- A state with a numeric id does not move what is packed after it. -/
lemma positionFrom_cons_numeric {e : Extent} {a : Address} (h : e.id = .numeric a) (cursor : Nat)
    (rest : List Extent) (k : Nat) (e' : Extent) :
    positionFrom cursor (e :: rest) (k + 1) e' = positionFrom cursor rest k e' := by
  unfold positionFrom
  rw [List.take_succ_cons, packed_cons_numeric h]

/-- A packed state moves on what is packed after it. -/
lemma positionFrom_cons_symbolic {e : Extent} {l : String} (h : e.id = .symbolic l)
    (cursor : Nat) (rest : List Extent) (k : Nat) (e' : Extent) :
    positionFrom cursor (e :: rest) (k + 1) e'
      = positionFrom (cursor + e.width + 1) rest k e' := by
  unfold positionFrom
  rw [List.take_succ_cons, packed_cons_symbolic h, ← Nat.add_assoc, ← Nat.add_assoc]

/-- Packing gives every state its position, and the reserved slot of a packed state is an
address. -/
lemma pack_eq_ok :
    ∀ {extents : List Extent} {cursor : Nat} {addresses : List Address},
      pack cursor extents = .ok addresses → ∀ {k : Nat} {e : Extent}, extents[k]? = some e →
        ∃ a, addresses[k]? = some a ∧ a.toNat = positionFrom cursor extents k e
          ∧ (e.reach? = none → a.toNat + e.width + 1 < UInt32.size)
  | [], _, _, _, k, e, he => by simp at he
  | e :: rest, cursor, addresses, h, k, e', he => by
      rw [pack] at h
      cases hid : e.id with
      | numeric a =>
          simp only [hid, bind_eq_ok_iff] at h
          obtain ⟨others, hothers, h⟩ := h
          cases h
          cases k with
          | zero =>
              cases he
              refine ⟨a, rfl, (positionFrom_numeric hid _ _ _).symm, fun hnone => ?_⟩
              rw [Extent.reach?_numeric hid] at hnone
              cases hnone
          | succ k =>
              rw [positionFrom_cons_numeric hid]
              exact pack_eq_ok hothers he
      | symbolic l =>
          simp only [hid, bind_eq_ok_iff, Extent.next_eq_ok_iff] at h
          obtain ⟨_, ⟨hfit, rfl⟩, others, hothers, h⟩ := h
          cases h
          cases k with
          | zero =>
              cases he
              have hcursor : (UInt32.ofNat cursor).toNat = cursor :=
                UInt32.toNat_ofNat_of_lt (by omega)
              refine ⟨UInt32.ofNat cursor, rfl, ?_, fun _ => ?_⟩
              · rw [hcursor, positionFrom_symbolic hid]
                rfl
              · rw [hcursor]
                exact hfit
          | succ k =>
              rw [positionFrom_cons_symbolic hid]
              exact pack_eq_ok hothers he

lemma length_pack :
    ∀ {extents : List Extent} {cursor : Nat} {addresses : List Address},
      pack cursor extents = .ok addresses → addresses.length = extents.length
  | [], _, _, h => by
      cases h
      rfl
  | e :: rest, cursor, addresses, h => by
      rw [pack] at h
      cases hid : e.id with
      | numeric a =>
          simp only [hid, bind_eq_ok_iff] at h
          obtain ⟨others, hothers, h⟩ := h
          cases h
          rw [List.length_cons, List.length_cons, length_pack hothers]
      | symbolic l =>
          simp only [hid, bind_eq_ok_iff] at h
          obtain ⟨_, _, others, hothers, h⟩ := h
          cases h
          rw [List.length_cons, List.length_cons, length_pack hothers]

/-- What is packed up to the state at index `k`, if there is one before it. -/
lemma add_packed_take_cons {e : Extent} {l : String} (h : e.id = .symbolic l) (cursor : Nat)
    (rest : List Extent) (k : Nat) :
    cursor + packed ((e :: rest).take (k + 1)) = cursor + e.width + 1 + packed (rest.take k) := by
  rw [List.take_succ_cons, packed_cons_symbolic h, ← Nat.add_assoc, ← Nat.add_assoc]

/-- Whether the state at index `k` is a packed one whose reserved slot is no address. -/
def PackedOverflow (cursor : Nat) (extents : List Extent) (k : Nat) (e : Extent) : Prop :=
  extents[k]? = some e ∧ e.id.isNumeric = false
    ∧ UInt32.size ≤ cursor + packed (extents.take (k + 1))

lemma packedOverflow_cons_numeric {e : Extent} {a : Address} (h : e.id = .numeric a)
    (cursor : Nat) (rest : List Extent) (k : Nat) (e' : Extent) :
    PackedOverflow cursor (e :: rest) (k + 1) e' ↔ PackedOverflow cursor rest k e' := by
  rw [PackedOverflow, PackedOverflow, List.getElem?_cons_succ, List.take_succ_cons,
    packed_cons_numeric h]

lemma packedOverflow_cons_symbolic {e : Extent} {l : String} (h : e.id = .symbolic l)
    (cursor : Nat) (rest : List Extent) (k : Nat) (e' : Extent) :
    PackedOverflow cursor (e :: rest) (k + 1) e'
      ↔ PackedOverflow (cursor + e.width + 1) rest k e' := by
  rw [PackedOverflow, PackedOverflow, List.getElem?_cons_succ, add_packed_take_cons h]

/-- A packed state at the front overflows if it does not fit at the cursor. -/
lemma packedOverflow_zero {e : Extent} {l : String} (h : e.id = .symbolic l) (cursor : Nat)
    (rest : List Extent) :
    PackedOverflow cursor (e :: rest) 0 e ↔ UInt32.size ≤ cursor + e.width + 1 := by
  rw [PackedOverflow, add_packed_take_cons h, h]
  simp [StateId.isNumeric, packed]

/-- **The first packed state that does not fit is told.** -/
lemma head?_packedOverflows :
    ∀ {extents : List Extent} {cursor k : Nat} {e : Extent},
      PackedOverflow cursor extents k e →
        (∀ j < k, ∀ e', ¬ PackedOverflow cursor extents j e') →
          (packedOverflows cursor extents).head? = some (.addressOverflow e.id)
  | [], _, _, _, hover, _ => by simp [PackedOverflow] at hover
  | e' :: rest, cursor, k, e, hover, hfirst => by
      rw [packedOverflows]
      cases hid : e'.id with
      | numeric a =>
          cases k with
          | zero =>
              obtain ⟨he, hsym, _⟩ := hover
              cases he
              rw [hid] at hsym
              cases hsym
          | succ k =>
              rw [packedOverflow_cons_numeric hid] at hover
              refine head?_packedOverflows hover fun j hj x hx => ?_
              exact hfirst (j + 1) (by omega) x ((packedOverflow_cons_numeric hid _ _ _ _).mpr hx)
      | symbolic l =>
          dsimp only
          cases k with
          | zero =>
              obtain rfl : e' = e := Option.some.inj hover.1
              rw [packedOverflow_zero hid] at hover
              rw [if_neg (Nat.not_lt.mpr hover), hid]
              rfl
          | succ k =>
              have hfit := hfirst 0 (by omega) e'
              rw [packedOverflow_zero hid] at hfit
              rw [packedOverflow_cons_symbolic hid] at hover
              rw [if_pos (Nat.not_le.mp hfit), List.nil_append]
              refine head?_packedOverflows hover fun j hj x hx => ?_
              exact hfirst (j + 1) (by omega) x ((packedOverflow_cons_symbolic hid _ _ _ _).mpr hx)

/-- Nothing is told exactly when every packed state fits. -/
lemma packedOverflows_eq_nil_iff {extents : List Extent} {cursor : Nat} :
    packedOverflows cursor extents = [] ↔ ∀ k e, ¬ PackedOverflow cursor extents k e := by
  constructor
  · intro hnil k e hover
    classical
    have hex : ∃ k, ∃ e, PackedOverflow cursor extents k e := ⟨k, e, hover⟩
    obtain ⟨e', he'⟩ := Nat.find_spec hex
    have hhead := head?_packedOverflows he' fun j hj x hx => Nat.find_min hex hj ⟨x, hx⟩
    rw [hnil] at hhead
    cases hhead
  · intro h
    induction extents generalizing cursor with
    | nil => rfl
    | cons e rest ih =>
        rw [packedOverflows]
        cases hid : e.id with
        | numeric a =>
            refine ih fun k x hx => ?_
            exact h (k + 1) x ((packedOverflow_cons_numeric hid _ _ _ _).mpr hx)
        | symbolic l =>
            dsimp only
            have hfit := h 0 e
            rw [packedOverflow_zero hid] at hfit
            rw [if_pos (Nat.not_le.mp hfit), List.nil_append]
            refine ih fun k x hx => ?_
            exact h (k + 1) x ((packedOverflow_cons_symbolic hid _ _ _ _).mpr hx)

/-! ## Assigning addresses -/

/-- **Where the state `e` at index `k` lies**: at its numeric id, or above the floor and what is
packed before it. -/
def position (extents : List Extent) (k : Nat) (e : Extent) : Nat :=
  positionFrom (floor extents) extents k e

/-- What the assignment of addresses raises: repeated ids, then states with numeric ids that do not
fit, then states that cannot be packed. -/
def faults (extents : List Extent) : List LowerError :=
  (StateId.repeats (extents.map Extent.id)).map .duplicateLabel
    ++ (fixedOverflows extents ++ packedOverflows (floor extents) extents)

theorem assign_failsFirst (extents : List Extent) :
    FailsFirst (assign extents) (faults extents) := by
  unfold assign faults
  cases StateId.repeats (extents.map Extent.id) with
  | cons id rest => exact rfl
  | nil =>
      refine (base_failsFirst extents).bind fun n hn => ?_
      rw [base_eq_ok hn]
      exact pack_failsFirst extents (floor extents)

/-- **Every state is assigned its position**, and its reserved slot is an address. -/
theorem assign_eq_ok {extents : List Extent} {addresses : List Address}
    (h : assign extents = .ok addresses) :
    addresses.length = extents.length
      ∧ ∀ {k : Nat} {e : Extent}, extents[k]? = some e →
          ∃ a, addresses[k]? = some a ∧ a.toNat = position extents k e
            ∧ a.toNat + e.width + 1 < UInt32.size := by
  unfold assign at h
  cases hrep : StateId.repeats (extents.map Extent.id) with
  | cons id rest =>
      rw [hrep] at h
      cases h
  | nil =>
      simp only [hrep, bind_eq_ok_iff] at h
      obtain ⟨n, hn, h⟩ := h
      have hfloor := base_eq_ok hn
      refine ⟨length_pack h, fun {k e} he => ?_⟩
      obtain ⟨a, ha, hpos, hfit⟩ := pack_eq_ok h he
      rw [hfloor] at hpos
      refine ⟨a, ha, hpos, ?_⟩
      cases hid : e.id with
      | symbolic l => exact hfit (Extent.reach?_symbolic hid)
      | numeric b =>
          have hb := reach_lt_of_base hn (List.mem_of_getElem? he) (Extent.reach?_numeric hid)
          rw [positionFrom_numeric hid] at hpos
          rwa [hpos]

/-- Nothing is raised if ids are different and every reserved slot is an address. -/
lemma faults_eq_nil {extents : List Extent}
    (hids : StateId.repeats (extents.map Extent.id) = [])
    (hfit : ∀ {k : Nat} {e : Extent}, extents[k]? = some e →
      position extents k e + e.width + 1 < UInt32.size) : faults extents = [] := by
  have hfixed : fixedOverflows extents = [] := by
    refine fixedOverflows_eq_nil_iff.mpr fun e he r hr => ?_
    obtain ⟨k, hk⟩ := List.mem_iff_getElem?.mp he
    have hlt := hfit hk
    cases hid : e.id with
    | numeric a =>
        rw [Extent.reach?_numeric hid] at hr
        rw [position, positionFrom_numeric hid] at hlt
        cases hr
        exact hlt
    | symbolic l =>
        rw [Extent.reach?_symbolic hid] at hr
        cases hr
  have hpacked : packedOverflows (floor extents) extents = [] := by
    refine packedOverflows_eq_nil_iff.mpr fun k e ⟨he, hsym, hover⟩ => ?_
    have hlt := hfit he
    cases hid : e.id with
    | numeric a =>
        rw [hid] at hsym
        cases hsym
    | symbolic l =>
        rw [position, positionFrom_symbolic hid] at hlt
        rw [packed_take_succ he hid] at hover
        omega
  rw [faults, hids, hfixed, hpacked]
  rfl

/-- **Addresses at the positions are the ones assigned**, if ids are different and every reserved
slot is an address. -/
theorem assign_eq_ok_of_position {extents : List Extent} {addresses : List Address}
    (hids : StateId.repeats (extents.map Extent.id) = [])
    (hlen : addresses.length = extents.length)
    (hpos : ∀ {k : Nat} {e : Extent} {a : Address}, extents[k]? = some e →
      addresses[k]? = some a →
        a.toNat = position extents k e ∧ a.toNat + e.width + 1 < UInt32.size) :
    assign extents = .ok addresses := by
  have hget : ∀ {k : Nat} {e : Extent}, extents[k]? = some e → ∃ a, addresses[k]? = some a := by
    intro k e he
    have hk : k < addresses.length := hlen ▸ (List.getElem?_eq_some_iff.mp he).1
    exact ⟨addresses[k], List.getElem?_eq_getElem hk⟩
  have hnil : faults extents = [] := by
    refine faults_eq_nil hids fun {k e} he => ?_
    obtain ⟨a, ha⟩ := hget he
    obtain ⟨hat, hfit⟩ := hpos he ha
    rwa [← hat]
  have hfaults := assign_failsFirst extents
  rw [hnil] at hfaults
  obtain ⟨assigned, hassigned⟩ := hfaults
  obtain ⟨hlen', hpos'⟩ := assign_eq_ok hassigned
  rw [hassigned]
  congr 1
  refine List.ext_getElem? fun k => ?_
  cases he : extents[k]? with
  | none =>
      rw [List.getElem?_eq_none_iff] at he
      rw [List.getElem?_eq_none (by omega), List.getElem?_eq_none (by omega)]
  | some e =>
      obtain ⟨a, ha⟩ := hget he
      obtain ⟨a', ha', hat', _⟩ := hpos' he
      obtain ⟨hat, _⟩ := hpos he ha
      rw [ha, ha', UInt32.toNat_inj.mp (hat'.trans hat.symm)]

/-! ## Separation -/

/-- A state with a numeric id and its reserved slot lie below the floor. -/
lemma position_numeric_lt_floor {extents : List Extent} {k : Nat} {e : Extent} {a : Address}
    (he : extents[k]? = some e) (hid : e.id = .numeric a) :
    position extents k e + e.width + 1 ≤ floor extents := by
  rw [position, positionFrom_numeric hid]
  exact reach_le_floor (List.mem_of_getElem? he) (Extent.reach?_numeric hid)

lemma floor_le_position {extents : List Extent} {e : Extent} {l : String}
    (hid : e.id = .symbolic l) (k : Nat) : floor extents ≤ position extents k e := by
  rw [position, positionFrom_symbolic hid]
  exact Nat.le_add_right _ _

/-- A packed state lies above every packed state before it and its reserved slot. -/
lemma position_lt_of_lt {extents : List Extent} {j k : Nat} {e e' : Extent} {l l' : String}
    (hjk : j < k) (he : extents[j]? = some e) (hid : e.id = .symbolic l)
    (hid' : e'.id = .symbolic l') :
    position extents j e + e.width + 1 ≤ position extents k e' := by
  rw [position, position, positionFrom_symbolic hid, positionFrom_symbolic hid']
  have hsucc := packed_take_succ he hid
  have hmono := packed_take_le extents (show j + 1 ≤ k from hjk)
  omega

/-- **A packed state shares no address with any other state**, and neither does its reserved
slot. -/
theorem position_separated {extents : List Extent} {j k : Nat} {e e' : Extent} {l : String}
    (hjk : j ≠ k) (he : extents[j]? = some e) (he' : extents[k]? = some e')
    (hid : e.id = .symbolic l) :
    position extents k e' + e'.width + 1 ≤ position extents j e
      ∨ position extents j e + e.width + 1 ≤ position extents k e' := by
  cases hid' : e'.id with
  | numeric a =>
      left
      exact le_trans (position_numeric_lt_floor he' hid') (floor_le_position hid j)
  | symbolic l' =>
      rcases Nat.lt_or_gt_of_ne hjk with hlt | hgt
      · exact Or.inr (position_lt_of_lt hlt he hid hid')
      · exact Or.inl (position_lt_of_lt hgt he' hid' hid)

end Placement

end Microstep
