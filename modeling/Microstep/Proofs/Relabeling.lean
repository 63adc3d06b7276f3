import Microstep.Proofs.Branches

/-!
# Lowering with other ids

The same machine with other ids: a map `g` is applied to the id of every state and to the target of
every jump (`Machine.mapIds`).  Most of the lowering cannot tell the difference.

* Compiling does not look at ids at all; they go into errors and branches only
  (`State.compile_mapIds`).
* The check for collisions sorts and compares addresses (`Footprint.checkDisjoint_mapId`).
* Looking up a jump compares ids, so `g` must keep apart the ids that the machine mentions
  (`Compiled.resolve_mapId`).

What is left is the assignment of addresses, where a numeric id counts as a number.  So lowering
runs in lockstep with the lowering of the machine with other ids wherever the assignment of
addresses does (`Machine.lower_mapIds`): the programs are the same, and the errors are the same up
to `g`.
-/

namespace Microstep

variable {ρ τ : Type}

/-! ## Other ids -/

/-- A transition to another state. -/
def Transition.mapIds (g : StateId → StateId) (t : Transition) : Transition :=
  { t with target := g t.target }

/-- A state with other ids. -/
def State.mapIds (g : StateId → StateId) (s : State) : State :=
  { s with id := g s.id, transitions := s.transitions.map (Transition.mapIds g) }

/-- **A machine with other ids**, both where states declare them and where they jump to them. -/
def Machine.mapIds (g : StateId → StateId) (m : Machine τ) : Machine τ :=
  { m with states := m.states.map (State.mapIds g) }

/-- **An error about other ids.**  It is of the same kind; the address of a collision and the cause
of a malformation stay as they are. -/
def LowerError.mapIds (g : StateId → StateId) : LowerError → LowerError
  | .unresolvedLabel label state => .unresolvedLabel (g label) (g state)
  | .malformedExpression state cause => .malformedExpression (g state) cause
  | .addressCollision first second address => .addressCollision (g first) (g second) address
  | .duplicateLabel label => .duplicateLabel (g label)
  | .addressOverflow state => .addressOverflow (g state)

def Body.mapIds (g : StateId → StateId) (body : Body ρ) : Body ρ := body.map (OpStep.relabel g)

def Compiled.mapIds (g : StateId → StateId) (c : Compiled ρ) : Compiled ρ :=
  { id := g c.id, bodies := c.bodies.map (Body.mapIds g) }

def Extent.mapId (g : StateId → StateId) (e : Extent) : Extent := { e with id := g e.id }

def Footprint.mapId (g : StateId → StateId) (f : Footprint) : Footprint := { f with id := g f.id }

/-! ## Compiling -/

section

variable (g : StateId → StateId) (scheme : RegisterScheme ρ)

/-- Statements mention no ids. -/
lemma Statement.mapIds_bodies :
    ∀ {statements : List Statement} {raised : List String} {bodies : List (Body ρ)},
      Statement.bodies scheme raised statements = .ok bodies →
        bodies.map (Body.mapIds g) = bodies
  | [], _, _, h => by
      cases h
      rfl
  | s :: rest, raised, bodies, h => by
      simp only [Statement.bodies, bind_eq_ok_iff] at h
      obtain ⟨body, hbody, others, hothers, h⟩ := h
      obtain ⟨_, o, _, _, rfl⟩ := Statement.body_eq_ok_iff.mp hbody
      cases h
      rw [List.map_cons, Statement.mapIds_bodies hothers]
      rfl

lemma Transition.conditional_mapIds (raised : List String) (target : StateId) (c : Expr) :
    Transition.conditional scheme raised (g target) c
      = Body.mapIds g (Transition.conditional scheme raised target c) := by
  cases c with
  | leaf o => rfl
  | node l op r =>
      simp [Transition.conditional, Transition.gated, Body.mapIds, OpStep.relabel,
        MicroOp.relabel]

lemma Transition.body_mapIds (raised : List String) (t : Transition) :
    Lockstep id (fun body body' => body' = Body.mapIds g body) (t.body scheme raised)
      ((t.mapIds g).body scheme raised) := by
  rw [Transition.body, Transition.body]
  cases hcond : t.condition with
  | none =>
      simp only [Transition.mapIds, hcond]
      exact rfl
  | some c =>
      simp only [Transition.mapIds, hcond]
      split_ifs with hname
      · exact rfl
      · exact Transition.conditional_mapIds g scheme raised t.target c

/-- **The bodies of a state jump where the state does.** -/
lemma State.bodies_mapIds (s : State) :
    Lockstep (fun cause => cause) (fun bodies bodies' => bodies' = bodies.map (Body.mapIds g))
      (s.bodies scheme) ((s.mapIds g).bodies scheme) := by
  have hstatements : Lockstep (fun cause => cause)
      (fun bodies bodies' => bodies' = bodies.map (Body.mapIds g))
      (Statement.bodies scheme [] s.statements) (Statement.bodies scheme [] s.statements) := by
    cases h : Statement.bodies scheme [] s.statements with
    | error cause => exact rfl
    | ok bodies => exact (Statement.mapIds_bodies g scheme h).symm
  have htransitions := Lockstep.mapM_map fun t (_ : t ∈ s.transitions) =>
    t.body_mapIds g scheme (s.statements.map Statement.out)
  rw [State.bodies, State.bodies]
  refine hstatements.bind fun statements statements' _ hs => ?_
  refine htransitions.bind_pure fun transitions transitions' ht => ?_
  rw [hs, ht, List.map_append]

lemma Compiled.extent_mapIds (c : Compiled ρ) : (c.mapIds g).extent = c.extent.mapId g := by
  simp [Compiled.extent, Compiled.width, Compiled.mapIds, Extent.mapId, Body.mapIds,
    List.length_flatten, Function.comp_def]

/-- **Compiling does not look at ids.** -/
theorem State.compile_mapIds (s : State) :
    Lockstep (LowerError.mapIds g) (fun c c' => c' = c.mapIds g) (s.compile scheme)
      ((s.mapIds g).compile scheme) := by
  rw [State.compile, State.compile, (s.bodies_mapIds g scheme).eq_map]
  cases s.bodies scheme with
  | error cause => exact rfl
  | ok bodies =>
      have hwidth : (Compiled.mapIds g { id := s.id, bodies }).width
          = ({ id := s.id, bodies } : Compiled ρ).width :=
        congrArg Extent.width (Compiled.extent_mapIds g _)
      show Lockstep _ _ _ (if (Compiled.mapIds g { id := s.id, bodies }).width < UInt32.size
        then .ok (Compiled.mapIds g { id := s.id, bodies })
        else .error (LowerError.addressOverflow (g s.id)))
      rw [hwidth]
      dsimp only
      split_ifs with hfit
      · exact rfl
      · exact rfl

end

/-- Pairing after a map; `List.zip_map_left` has `Prod.map` in place of the projections. -/
lemma zip_map_left {α α' β : Type} (f : α → α') (l : List α) (r : List β) :
    (l.map f).zip r = (l.zip r).map fun p => (f p.1, p.2) := by
  rw [List.zip_map_left]
  rfl

/-! ## Collisions -/

namespace Footprint

variable (g : StateId → StateId)

lemma ofExtents_mapId (extents : List Extent) (addresses : List Address) :
    Lockstep (LowerError.mapIds g) (fun fs fs' => fs' = fs.map (mapId g))
      (ofExtents extents addresses) (ofExtents (extents.map (Extent.mapId g)) addresses) := by
  rw [ofExtents, ofExtents, zip_map_left]
  refine Lockstep.mapM_map fun p _ => ?_
  by_cases hfit : p.2.toNat + p.1.width < UInt32.size
  · simp [ofExtent, mapId, Extent.mapId, hfit, Lockstep]
  · simp [ofExtent, LowerError.mapIds, Extent.mapId, hfit, Lockstep]

/-- Sorting by starts leaves the ids where they are. -/
lemma byStart_mapId (fs : List Footprint) :
    byStart (fs.map (mapId g)) = (byStart fs).map (mapId g) :=
  Eq.symm (List.map_mergeSort fun _ _ _ _ => rfl)

lemma sweep?_mapId :
    ∀ (fs : List Footprint) (furthest : Footprint),
      sweep? (mapId g furthest) (fs.map (mapId g))
        = (sweep? furthest fs).map (Prod.map (mapId g) (mapId g))
  | [], _ => rfl
  | f :: rest, furthest => by
      rw [List.map_cons, sweep?, sweep?]
      by_cases hmeet : f.start.toNat < furthest.stop
      · simp [mapId, hmeet]
      · by_cases hfurther : furthest.stop < f.stop
        · simpa [mapId, hmeet, hfurther] using sweep?_mapId rest f
        · simpa [mapId, hmeet, hfurther] using sweep?_mapId rest furthest

lemma collision?_mapId (fs : List Footprint) :
    collision? (fs.map (mapId g)) = (collision? fs).map (Prod.map (mapId g) (mapId g)) := by
  rw [collision?, collision?, byStart_mapId]
  cases byStart fs with
  | nil => rfl
  | cons first rest => exact sweep?_mapId g rest first

/-- **The check for collisions does not look at ids.** -/
theorem checkDisjoint_mapId (fs : List Footprint) :
    Lockstep (LowerError.mapIds g) Eq (checkDisjoint fs) (checkDisjoint (fs.map (mapId g))) := by
  rw [checkDisjoint, checkDisjoint, collision?_mapId]
  cases collision? fs with
  | none => exact rfl
  | some p => exact rfl

end Footprint

/-! ## Jumps -/

section

variable {g : StateId → StateId}

lemma Compiled.lookup_mapId {label : StateId} :
    ∀ {places : List (StateId × Address)}, (∀ p ∈ places, g p.1 = g label → p.1 = label) →
      (places.map fun p => (g p.1, p.2)).lookup (g label) = places.lookup label
  | [], _ => rfl
  | p :: places, h => by
      obtain ⟨hp, hplaces⟩ := List.forall_mem_cons.mp h
      rw [List.map_cons, List.lookup_cons, List.lookup_cons, Compiled.lookup_mapId hplaces]
      by_cases heq : label = p.1
      · rw [heq, beq_self_eq_true, beq_self_eq_true]
      · have hne : g label ≠ g p.1 := fun hg => heq (hp hg.symm).symm
        rw [beq_false_of_ne heq, beq_false_of_ne hne]

/-- **A label is found under its other id**, if no other label has got that id too. -/
theorem Compiled.resolve_mapId {places : List (StateId × Address)} {label : StateId}
    (h : ∀ p ∈ places, g p.1 = g label → p.1 = label) (state : StateId) :
    Lockstep (LowerError.mapIds g) Eq (Compiled.resolve places state label)
      (Compiled.resolve (places.map fun p => (g p.1, p.2)) (g state) (g label)) := by
  rw [Compiled.resolve, Compiled.resolve, Compiled.lookup_mapId h]
  cases places.lookup label with
  | none => exact rfl
  | some a => exact rfl

variable {resolve resolve' : StateId → Except LowerError Address}

lemma OpStep.mapLabels_mapIds {step : OpStep ρ StateId}
    (h : ∀ l ∈ step.labels, Lockstep (LowerError.mapIds g) Eq (resolve l) (resolve' (g l))) :
    Lockstep (LowerError.mapIds g) Eq (step.mapLabels resolve)
      ((step.relabel g).mapLabels resolve') := by
  refine Lockstep.mapM_eq fun op hop => ?_
  cases op with
  | openGuard => exact rfl
  | compute c => exact rfl
  | branch r target =>
      have hmem : target ∈ step.labels :=
        List.mem_flatMap.mpr ⟨_, hop, by simp [MicroOp.label?]⟩
      exact (h target hmem).bind_pure fun _ _ ha => by rw [ha]

lemma Compiled.placeBlocks_mapIds :
    ∀ {bodies : List (Body ρ)} {start : Address},
      (∀ l ∈ bodies.flatMap Body.labels,
        Lockstep (LowerError.mapIds g) Eq (resolve l) (resolve' (g l))) →
      Lockstep (LowerError.mapIds g) Eq (Compiled.placeBlocks resolve start bodies)
        (Compiled.placeBlocks resolve' start (bodies.map (Body.mapIds g)))
  | [], _, _ => rfl
  | body :: rest, start, h => by
      rw [List.flatMap_cons, List.forall_mem_append] at h
      have hbody : Lockstep (LowerError.mapIds g) Eq (body.mapM (OpStep.mapLabels resolve))
          ((body.map (OpStep.relabel g)).mapM (OpStep.mapLabels resolve')) := by
        refine Lockstep.mapM_eq fun step hstep => OpStep.mapLabels_mapIds fun l hl => ?_
        exact h.1 l (List.mem_flatMap.mpr ⟨step, hstep, hl⟩)
      rw [List.map_cons, Compiled.placeBlocks, Compiled.placeBlocks, Body.mapIds, List.length_map]
      refine hbody.bind fun steps steps' _ hsteps => ?_
      refine (Compiled.placeBlocks_mapIds h.2).bind_pure fun blocks blocks' hblocks => ?_
      rw [hsteps, hblocks]

/-- A compiled state is placed in the same way, wherever its jumps are found in the same way. -/
lemma Compiled.place_mapIds {places : List (StateId × Address)} {c : Compiled ρ}
    (h : ∀ l ∈ c.bodies.flatMap Body.labels, ∀ p ∈ places, g p.1 = g l → p.1 = l)
    (address : Address) :
    Lockstep (LowerError.mapIds g) Eq (c.place places address)
      ((c.mapIds g).place (places.map fun p => (g p.1, p.2)) address) := by
  rw [Compiled.place, Compiled.place]
  refine Lockstep.bind_pure (Compiled.placeBlocks_mapIds fun l hl => ?_) fun _ _ hb => by rw [hb]
  exact Compiled.resolve_mapId (h l hl) c.id

end

/-! ## Machines -/

namespace Machine

/-- The ids that the states of a machine jump to. -/
def targets (m : Machine τ) : List StateId :=
  m.states.flatMap fun s => s.transitions.map Transition.target

/-- **Lowering with other ids runs in lockstep**, if ids that the machine mentions stay different
and the assignment of addresses runs in lockstep. -/
theorem lower_mapIds {g : StateId → StateId} {m : Machine τ} (scheme : RegisterScheme ρ)
    (hinj : Set.InjOn g {id | id ∈ m.ids ∨ id ∈ m.targets})
    (hassign : Lockstep (LowerError.mapIds g) Eq (Placement.assign m.extents)
      (Placement.assign (m.extents.map (Extent.mapId g)))) :
    Lockstep (LowerError.mapIds g) Eq (m.lower scheme) ((m.mapIds g).lower scheme) := by
  rw [lower, lower]
  refine Lockstep.bind (Lockstep.mapM_map fun s _ => s.compile_mapIds g scheme)
    fun compiled compiled' hcompiled hmap => ?_
  subst hmap
  rw [mapM_eq_ok_iff] at hcompiled
  have hext : compiled.map Compiled.extent = m.extents := map_extent_of_compile hcompiled
  have hids : compiled.map Compiled.id = m.ids := map_id_of_compile hcompiled
  have hext' : (compiled.map (Compiled.mapIds g)).map Compiled.extent
      = m.extents.map (Extent.mapId g) := by
    rw [← hext, List.map_map, List.map_map]
    exact List.map_congr_left fun c _ => c.extent_mapIds g
  have hids' : (compiled.map (Compiled.mapIds g)).map Compiled.id = m.ids.map g := by
    rw [← hids, List.map_map, List.map_map]
    rfl
  dsimp only
  rw [hext, hids, hext', hids']
  refine hassign.bind fun addresses addresses' _ haddresses => ?_
  subst haddresses
  refine (Footprint.ofExtents_mapId g m.extents addresses).bind fun fs fs' _ hfs => ?_
  subst hfs
  refine (Footprint.checkDisjoint_mapId g fs).bind fun _ _ _ _ => ?_
  rw [zip_map_left, zip_map_left]
  refine Lockstep.bind_pure (Lockstep.mapM_eq fun x hx => ?_) fun _ _ h => by rw [h]; rfl
  obtain ⟨s, hs, hc⟩ := exists_of_forall₂_right hcompiled (List.of_mem_zip hx).1
  obtain ⟨_, hbodies, _⟩ := State.compile_eq_ok_iff.mp hc
  refine Compiled.place_mapIds (fun l hl p hp heq => ?_) x.2
  rw [State.labels_bodies hbodies] at hl
  have hl' : l ∈ m.targets := List.mem_flatMap.mpr ⟨s, hs, hl⟩
  exact hinj (Or.inl (List.of_mem_zip hp).1) (Or.inr hl') heq

end Machine

end Microstep
