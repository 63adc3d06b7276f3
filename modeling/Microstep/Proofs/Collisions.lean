import Microstep.Proofs.Lowering

/-!
# The lowest collision

The check for collisions looks at footprints in the order of their starts and remembers only the one
that reaches furthest.  It finds a collision whenever two footprints meet
(`Footprint.collision?_eq_none_iff`), and the one it tells is the lowest: no address below the start
of the second footprint is taken up twice (`Footprint.collision?_lowest`).  Until the sweep stops,
the footprints behind it are disjoint, and all that follow start at the same address or later.

Packed states keep apart from all others, so only states with numeric ids are ever told
(`Placement.numeric_of_overlap`).
-/

namespace Microstep

variable {ρ : Type}

/-! ## What the sweep finds -/

namespace Footprint

variable {fs : List Footprint} {f g : Footprint}

/-- Whether a footprint takes up an address. -/
def Covers (f : Footprint) (n : Nat) : Prop := f.start.toNat ≤ n ∧ n < f.stop

/-- Footprints that are not empty are disjoint if no address is taken up by both. -/
lemma disjoint_iff (hf : f.start.toNat < f.stop) (hg : g.start.toNat < g.stop) :
    f.Disjoint g ↔ ∀ n, f.Covers n → ¬ g.Covers n := by
  unfold Disjoint Covers
  constructor
  · intro h n
    omega
  · intro h
    -- the later of the two starts
    have hstart := h (max f.start.toNat g.start.toNat)
    omega

lemma pairwise_disjoint_iff_covers (hne : ∀ f ∈ fs, f.start.toNat < f.stop) :
    fs.Pairwise Disjoint ↔ ∀ n, fs.Pairwise fun f g => f.Covers n → ¬ g.Covers n := by
  constructor
  · intro h n
    exact h.imp_of_mem fun {f g} hf hg hfg => (disjoint_iff (hne f hf) (hne g hg)).mp hfg n
  · intro h
    rw [pairwise_disjoint_iff]
    intro i j f g hij hf hg
    have hnef := hne f (List.mem_of_getElem? hf)
    have hneg := hne g (List.mem_of_getElem? hg)
    refine (disjoint_iff hnef hneg).mpr fun n => ?_
    exact (pairwise_iff_of_symm fun h hy hx => h hx hy).mp (h n) hij hf hg

/-- Two footprints at different places of a list have different places in any order of it. -/
lemma exists_places {sorted : List Footprint} (h : sorted.Perm fs) {i j : Nat} (hij : i ≠ j)
    (hf : sorted[i]? = some f) (hg : sorted[j]? = some g) :
    ∃ i' j' : Nat, i' ≠ j' ∧ fs[i']? = some f ∧ fs[j']? = some g := by
  by_contra hno
  push Not at hno
  -- otherwise no two footprints of the list are these, in either order
  let R : Footprint → Footprint → Prop := fun x y => ¬ (x = f ∧ y = g) ∧ ¬ (x = g ∧ y = f)
  have hsymm : ∀ {x y}, R x y → R y x := by
    intro x y hxy
    exact ⟨fun h => hxy.2 h.symm, fun h => hxy.1 h.symm⟩
  have hfs : fs.Pairwise R := by
    refine (pairwise_iff_of_symm hsymm).mpr fun {i j x y} hij hx hy => ⟨?_, ?_⟩
    · rintro ⟨rfl, rfl⟩
      exact hno i j hij hx hy
    · rintro ⟨rfl, rfl⟩
      exact hno j i hij.symm hy hx
  have hsorted := (h.pairwise_iff hsymm).mpr hfs
  exact ((pairwise_iff_of_symm hsymm).mp hsorted hij hf hg).1 ⟨rfl, rfl⟩

/-- Where the sweep stops: the footprints behind it are disjoint, and the two that meet are side by
side. -/
lemma collision?_eq_some (hne : ∀ f ∈ fs, f.start.toNat < f.stop)
    (h : collision? fs = some (f, g)) :
    ∃ before after, byStart fs = before ++ f :: g :: after
      ∧ ((before ++ [f]).Pairwise fun f g => f.stop ≤ g.start.toNat)
      ∧ g.start.toNat < f.stop := by
  have hne' : ∀ f ∈ byStart fs, f.start.toNat < f.stop :=
    fun f hf => hne f ((perm_byStart fs).mem_iff.mp hf)
  rw [collision?] at h
  cases hsorted : byStart fs with
  | nil =>
      rw [hsorted] at h
      cases h
  | cons first rest =>
      rw [hsorted] at h hne'
      exact sweep?_eq_some (List.forall_mem_cons.mp hne').2 h

/-- **The collision that is told is the lowest.**  Both footprints take up the address where the
second starts, and no address below it is taken up twice. -/
theorem collision?_lowest (hne : ∀ f ∈ fs, f.start.toNat < f.stop)
    (h : collision? fs = some (f, g)) :
    (∃ i j : Nat, i ≠ j ∧ fs[i]? = some f ∧ fs[j]? = some g)
      ∧ f.Covers g.start.toNat ∧ g.Covers g.start.toNat
      ∧ ∀ n < g.start.toNat, fs.Pairwise fun x y => x.Covers n → ¬ y.Covers n := by
  obtain ⟨before, after, hsplit, hbehind, hmeet⟩ := collision?_eq_some hne h
  have hplaces := exists_places (perm_byStart fs) (f := f) (g := g)
    (Nat.ne_of_lt (Nat.lt_succ_self before.length)) (by simp [hsplit]) (by simp [hsplit])
  have hsorted := pairwise_byStart fs
  rw [hsplit, List.pairwise_append, List.pairwise_cons, List.pairwise_cons] at hsorted
  obtain ⟨_, ⟨hf, hg, _⟩, _⟩ := hsorted
  have hgmem : g ∈ fs := (perm_byStart fs).mem_iff.mp (by simp [hsplit])
  refine ⟨hplaces, ⟨hf g (List.mem_cons_self ..), hmeet⟩, ⟨le_refl _, hne g hgmem⟩, ?_⟩
  intro n hn
  have hahead : ∀ x ∈ g :: after, ¬ x.Covers n := by
    intro x hx hcovers
    rcases List.mem_cons.mp hx with rfl | hx
    · exact absurd hcovers.1 (by omega)
    · have hgx := hg x hx
      exact absurd hcovers.1 (by omega)
  have hsplit' : byStart fs = (before ++ [f]) ++ g :: after := by rw [hsplit]; simp
  rw [← (perm_byStart fs).pairwise_iff fun h hy hx => h hx hy, hsplit', List.pairwise_append]
  refine ⟨hbehind.imp fun hxy hx hy => ?_, ?_, fun x _ y hy _ => hahead y hy⟩
  · exact absurd hy.1 (by have hlt := hx.2; omega)
  · exact List.pairwise_of_forall_mem_list fun x hx y hy _ => hahead y hy

lemma checkDisjoint_eq_ok_iff : checkDisjoint fs = .ok () ↔ collision? fs = none := by
  unfold checkDisjoint
  cases collision? fs <;> simp

lemma checkDisjoint_eq_error_iff {e : LowerError} :
    checkDisjoint fs = .error e ↔
      ∃ f g, collision? fs = some (f, g) ∧ e = .addressCollision f.id g.id g.start := by
  unfold checkDisjoint
  cases collision? fs with
  | none => simp
  | some p => simp [Prod.ext_iff, eq_comm]

end Footprint

/-! ## Only numeric ids collide -/

/-- **A state that meets another has a numeric id**, which is where it lies. -/
theorem Placement.numeric_of_overlap {extents : List Extent} {i j : Nat} {e e' : Extent}
    (hij : i ≠ j) (he : extents[i]? = some e) (he' : extents[j]? = some e')
    (hbelow : position extents i e < position extents j e' + max e'.width 1)
    (habove : position extents j e' < position extents i e + max e.width 1) :
    ∃ a, e.id = .numeric a ∧ position extents i e = a.toNat := by
  cases hid : e.id with
  | numeric a => exact ⟨a, rfl, positionFrom_numeric hid _ _ _⟩
  | symbolic l =>
      have hapart := position_separated hij he he' hid
      omega

/-! ## Compiled states -/

namespace Compiled

/-- Whether the state at index `i` takes up the address `n` if it is placed at the address of the
same index: one of as many addresses as it is wide, but at least its own. -/
def Occupies (states : List (Compiled ρ)) (addresses : List Address) (i n : Nat) : Prop :=
  ∃ c a, states[i]? = some c ∧ addresses[i]? = some a
    ∧ a.toNat ≤ n ∧ n < a.toNat + max c.width 1

/-- Whether every state fits where it is placed, with its reserved slot. -/
def Fits (states : List (Compiled ρ)) (addresses : List Address) : Prop :=
  ∀ (i : Nat) (c : Compiled ρ) (a : Address), states[i]? = some c → addresses[i]? = some a →
    a.toNat + c.width + 1 < UInt32.size

/-- **The lowest collision**: `e` tells two states that both take up the address where the second
starts.  The first starts there or below, and no lower address is taken up by two states. -/
def LowestCollision (states : List (Compiled ρ)) (addresses : List Address) (e : LowerError) :
    Prop :=
  ∃ (i j : Nat) (c d : Compiled ρ) (a b : Address), i ≠ j
    ∧ states[i]? = some c ∧ addresses[i]? = some a
    ∧ states[j]? = some d ∧ addresses[j]? = some b
    ∧ e = .addressCollision c.id d.id b
    ∧ a ≤ b
    ∧ Occupies states addresses i b.toNat ∧ Occupies states addresses j b.toNat
    ∧ ∀ n < b.toNat, ∀ i' j',
        Occupies states addresses i' n → Occupies states addresses j' n → i' = j'

/-- The footprint of a state at an address. -/
def footprint (c : Compiled ρ) (a : Address) : Footprint :=
  { id := c.id, start := a, stop := a.toNat + max c.width 1 }

/-- The footprints of states at their addresses. -/
def footprints (states : List (Compiled ρ)) (addresses : List Address) : List Footprint :=
  (states.zip addresses).map fun p => p.1.footprint p.2

variable {states : List (Compiled ρ)} {addresses : List Address}

/-- States that fit have footprints. -/
lemma ofExtents_extent (hfits : Fits states addresses) :
    Footprint.ofExtents (states.map extent) addresses
      = .ok (footprints states addresses) := by
  rw [Footprint.ofExtents_eq_ok]
  · rw [footprints, List.zip_map_left, List.map_map]
    rfl
  · intro p hp
    obtain ⟨i, hi⟩ := List.mem_iff_getElem?.mp hp
    obtain ⟨he, ha⟩ := List.getElem?_zip_eq_some.mp hi
    rw [List.getElem?_map, Option.map_eq_some_iff] at he
    obtain ⟨c, hc, hce⟩ := he
    rw [← hce]
    exact hfits i c p.2 hc ha

lemma getElem?_footprints {i : Nat} {f : Footprint} :
    (footprints states addresses)[i]? = some f ↔
      ∃ c a, states[i]? = some c ∧ addresses[i]? = some a ∧ c.footprint a = f := by
  rw [footprints, List.getElem?_map, Option.map_eq_some_iff]
  constructor
  · rintro ⟨p, hp, rfl⟩
    obtain ⟨hc, ha⟩ := List.getElem?_zip_eq_some.mp hp
    exact ⟨p.1, p.2, hc, ha, rfl⟩
  · rintro ⟨c, a, hc, ha, rfl⟩
    exact ⟨(c, a), List.getElem?_zip_eq_some.mpr ⟨hc, ha⟩, rfl⟩

lemma nonempty_footprints : ∀ f ∈ footprints states addresses, f.start.toNat < f.stop := by
  intro f hf
  obtain ⟨p, _, rfl⟩ := List.mem_map.mp hf
  unfold footprint
  dsimp only
  omega

/-- What a state takes up is what its footprint covers. -/
lemma occupies_iff {i n : Nat} :
    Occupies states addresses i n ↔
      ∃ f, (footprints states addresses)[i]? = some f ∧ f.Covers n := by
  simp only [getElem?_footprints]
  constructor
  · rintro ⟨c, a, hc, ha, hn⟩
    exact ⟨c.footprint a, ⟨c, a, hc, ha, rfl⟩, hn⟩
  · rintro ⟨_, ⟨c, a, hc, ha, rfl⟩, hn⟩
    exact ⟨c, a, hc, ha, hn⟩

/-- An address is taken up once if no two footprints cover it. -/
lemma occupies_unique_iff {n : Nat} :
    ((footprints states addresses).Pairwise fun f g => f.Covers n → ¬ g.Covers n) ↔
      ∀ i j, Occupies states addresses i n → Occupies states addresses j n → i = j := by
  rw [Footprint.pairwise_iff_of_symm fun h hg hf => h hf hg]
  simp only [occupies_iff]
  constructor
  · rintro h i j ⟨f, hf, hfn⟩ ⟨g, hg, hgn⟩
    by_contra hij
    exact h hij hf hg hfn hgn
  · intro h i j f g hij hf hg hfn hgn
    exact hij (h i j ⟨f, hf, hfn⟩ ⟨g, hg, hgn⟩)

lemma check_eq_ok_iff (hfits : Fits states addresses) :
    Footprint.ofExtents (states.map extent) addresses >>= Footprint.checkDisjoint = .ok () ↔
      ∀ n i j, Occupies states addresses i n → Occupies states addresses j n → i = j := by
  rw [ofExtents_extent hfits]
  show Footprint.checkDisjoint _ = .ok () ↔ _
  rw [Footprint.checkDisjoint_eq_ok_iff, Footprint.collision?_eq_none_iff nonempty_footprints,
    Footprint.pairwise_disjoint_iff_covers nonempty_footprints]
  exact forall_congr' fun n => occupies_unique_iff

lemma lowestCollision_of_check (hfits : Fits states addresses) {e : LowerError}
    (h : Footprint.ofExtents (states.map extent) addresses >>= Footprint.checkDisjoint
      = .error e) : LowestCollision states addresses e := by
  rw [ofExtents_extent hfits] at h
  obtain ⟨f, g, hcollision, rfl⟩ := Footprint.checkDisjoint_eq_error_iff.mp h
  obtain ⟨⟨i, j, hij, hf, hg⟩, hfcovers, hgcovers, hlowest⟩ :=
    Footprint.collision?_lowest nonempty_footprints hcollision
  have hi : Occupies states addresses i g.start.toNat := occupies_iff.mpr ⟨f, hf, hfcovers⟩
  have hj : Occupies states addresses j g.start.toNat := occupies_iff.mpr ⟨g, hg, hgcovers⟩
  obtain ⟨c, a, hc, ha, rfl⟩ := getElem?_footprints.mp hf
  obtain ⟨d, b, hd, hb, rfl⟩ := getElem?_footprints.mp hg
  exact ⟨i, j, c, d, a, b, hij, hc, ha, hd, hb, rfl, hfcovers.1, hi, hj,
    fun n hn => occupies_unique_iff.mp (hlowest n hn)⟩

lemma getElem?_extents {i : Nat} {c : Compiled ρ} (hc : states[i]? = some c) :
    (states.map extent)[i]? = some c.extent := by
  rw [List.getElem?_map, hc]
  rfl

/-- Assigned addresses are where states fit. -/
lemma fits_of_assign (h : Placement.assign (states.map extent) = .ok addresses) :
    Fits states addresses := by
  intro i c a hc ha
  obtain ⟨a', ha', _, hfit⟩ := (Placement.assign_eq_ok h).2 (getElem?_extents hc)
  rw [ha] at ha'
  cases ha'
  exact hfit

/-- Assigned addresses are the positions of the states. -/
lemma position_of_assign (h : Placement.assign (states.map extent) = .ok addresses) {i : Nat}
    {c : Compiled ρ} {a : Address} (hc : states[i]? = some c) (ha : addresses[i]? = some a) :
    Placement.position (states.map extent) i c.extent = a.toNat := by
  obtain ⟨a', ha', hpos, _⟩ := (Placement.assign_eq_ok h).2 (getElem?_extents hc)
  rw [ha] at ha'
  cases ha'
  exact hpos.symm

/-- **Packed states are never told.** -/
lemma LowestCollision.numeric {e : LowerError} (h : LowestCollision states addresses e)
    (hassign : Placement.assign (states.map extent) = .ok addresses) :
    ∃ a b : Address, e = .addressCollision (.numeric a) (.numeric b) b := by
  obtain ⟨i, j, c, d, a, b, hij, hc, ha, hd, hb, rfl, hle, ⟨c', a', hc', ha', _, hmeet⟩, _⟩ := h
  rw [hc] at hc'
  rw [ha] at ha'
  cases hc'
  cases ha'
  have hpos := position_of_assign hassign hc ha
  have hpos' := position_of_assign hassign hd hb
  have hle' : a.toNat ≤ b.toNat := hle
  have hwidth : c.extent.width = c.width := rfl
  obtain ⟨a', hida, _⟩ := Placement.numeric_of_overlap hij (getElem?_extents hc)
    (getElem?_extents hd) (by omega) (by omega)
  obtain ⟨b', hidb, hb'⟩ := Placement.numeric_of_overlap hij.symm (getElem?_extents hd)
    (getElem?_extents hc) (by omega) (by omega)
  obtain rfl : b = b' := UInt32.toNat_inj.mp (hpos'.symm.trans hb')
  have hcid : c.id = .numeric a' := hida
  have hdid : d.id = .numeric b := hidb
  exact ⟨a', b, by rw [hcid, hdid]⟩

/-- **The check for collisions is exact.**  Take any states and any addresses where they fit, also
states that are empty and addresses that are equal.  The check passes exactly when no address is
taken up by two states, and otherwise tells the lowest collision.  If the addresses are the ones
assigned, both states that are told have numeric ids. -/
theorem checkDisjoint_exact (states : List (Compiled ρ)) (addresses : List Address) :
    let check :=
      Footprint.ofExtents (states.map Compiled.extent) addresses >>= Footprint.checkDisjoint
    (Fits states addresses →
      (check = .ok () ↔
        ∀ n i j, Occupies states addresses i n → Occupies states addresses j n → i = j)
      ∧ ∀ e, check = .error e → LowestCollision states addresses e)
    ∧ (Placement.assign (states.map Compiled.extent) = .ok addresses →
        ∀ e, check = .error e →
          ∃ a b : Address, e = .addressCollision (.numeric a) (.numeric b) b) := by
  intro check
  refine ⟨fun hfits => ⟨check_eq_ok_iff hfits, fun e he => ?_⟩, fun hassign e he => ?_⟩
  · exact lowestCollision_of_check hfits he
  · exact (lowestCollision_of_check (fits_of_assign hassign) he).numeric hassign

/-- Op-steps that only open the guard. -/
def idling (id : StateId) (width : Nat) : Compiled Register :=
  { id, bodies := [List.replicate width [.openGuard]] }

/-- Four states: one is empty and lies inside another, which reaches up to a third. -/
def crowd : List (Compiled Register) :=
  [idling (.numeric 14) 2, idling (.numeric 10) 4, idling (.numeric 12) 0,
    idling (.symbolic "idle") 3]

theorem checkDisjoint_exact_crowd :
    let told : LowerError := .addressCollision (.numeric 10) (.numeric 12) 12
    Placement.assign (crowd.map extent) = .ok [14, 10, 12, 17]
    ∧ Footprint.ofExtents (crowd.map extent) [14, 10, 12, 17] >>= Footprint.checkDisjoint
        = .error told
    ∧ LowestCollision crowd [14, 10, 12, 17] told
    ∧ ∃ a b : Address, told = .addressCollision (.numeric a) (.numeric b) b := by
  intro told
  have hassign : Placement.assign (crowd.map extent) = .ok [14, 10, 12, 17] := by cbv
  have hcheck : Footprint.ofExtents (crowd.map extent) [14, 10, 12, 17] >>= Footprint.checkDisjoint
      = .error told := by cbv
  obtain ⟨hexact, hnumeric⟩ := checkDisjoint_exact crowd [14, 10, 12, 17]
  exact ⟨hassign, hcheck, (hexact (fits_of_assign hassign)).2 told hcheck,
    hnumeric hassign told hcheck⟩

end Compiled

end Microstep
