import Microstep.Proofs.Blocks
import Microstep.Proofs.Placement

/-!
# What lowering does, as a whole

The passes of the lowering put together, once for machines that come through and once for machines
that do not.

**Failure.**  `Machine.lower_failsFirst` lists everything that can go wrong with a machine whose
states are not too wide, in the order in which the passes meet it: malformed expressions, repeated
ids, overflows, collisions, and jumps to nowhere.  Each list is read off the source.

**Success.**  `Lowered` collects what is known of a machine and its program: the addresses are the
ones assigned, and every state of the program holds the bodies of its source state, laid out from
its address, with the jumps resolved among the states of the machine.

Jumps are the only thing that differs between a body and the block it becomes
(`Compiled.placeBlocks_eq_ok`).
-/

namespace Microstep

variable {ρ τ κ κ' : Type}

/-! ## Jumps of op-steps -/

/-- The target of a branch. -/
def MicroOp.label? : MicroOp ρ κ → Option κ
  | .openGuard => none
  | .compute _ => none
  | .branch _ target => some target

/-- A micro-op with another target. -/
def MicroOp.relabel (f : κ → κ') : MicroOp ρ κ → MicroOp ρ κ'
  | .openGuard => .openGuard
  | .compute c => .compute c
  | .branch r target => .branch r (f target)

/-- The targets of the branches of an op-step. -/
def OpStep.labels (step : OpStep ρ κ) : List κ := step.flatMap fun op => op.label?.toList

/-- An op-step with other targets. -/
def OpStep.relabel (f : κ → κ') (step : OpStep ρ κ) : OpStep ρ κ' := step.map (MicroOp.relabel f)

/-- The targets of the branches of a body. -/
def Body.labels (body : Body ρ) : List StateId := body.flatMap OpStep.labels

/-- The labels among which none of `places` is found, as errors of the state they stand in. -/
def Compiled.unresolved (places : List (StateId × Address)) (state : StateId)
    (labels : List StateId) : List LowerError :=
  (labels.filter fun l => (places.lookup l).isNone).map (.unresolvedLabel · state)

namespace Compiled

lemma unresolved_flatMap {α : Type} (places : List (StateId × Address)) (state : StateId)
    (l : List α) (g : α → List StateId) :
    unresolved places state (l.flatMap g) = l.flatMap fun a => unresolved places state (g a) := by
  induction l with
  | nil => rfl
  | cons a l ih =>
      rw [List.flatMap_cons, List.flatMap_cons, ← ih]
      simp [unresolved]

/-- The address a label stands for; labels that are not found do not matter. -/
def target (places : List (StateId × Address)) (label : StateId) : Address :=
  (places.lookup label).getD 0

lemma resolve_eq_ok_iff {places : List (StateId × Address)} {state label : StateId}
    {a : Address} : resolve places state label = .ok a ↔ places.lookup label = some a := by
  unfold resolve
  cases places.lookup label <;> simp

lemma resolve_failsFirst (places : List (StateId × Address)) (state label : StateId) :
    FailsFirst (resolve places state label) (unresolved places state [label]) := by
  unfold resolve unresolved
  cases h : places.lookup label with
  | some a =>
      rw [List.filter_singleton, h]
      exact FailsFirst.of_ok a
  | none =>
      rw [List.filter_singleton, h]
      exact rfl

lemma mapLabel_failsFirst (places : List (StateId × Address)) (state : StateId)
    (op : MicroOp ρ StateId) :
    FailsFirst (op.mapLabel (resolve places state))
      (unresolved places state op.label?.toList) := by
  cases op with
  | openGuard => exact FailsFirst.of_ok _
  | compute c => exact FailsFirst.of_ok _
  | branch r target => exact (resolve_failsFirst places state target).bind_pure

lemma mapLabel_eq_ok {places : List (StateId × Address)} {state : StateId}
    {op : MicroOp ρ StateId} {op' : MicroOp ρ Address}
    (h : op.mapLabel (resolve places state) = .ok op') : op' = op.relabel (target places) := by
  cases op with
  | openGuard =>
      cases h
      rfl
  | compute c =>
      cases h
      rfl
  | branch r label =>
      simp only [MicroOp.mapLabel, bind_eq_ok_iff, resolve_eq_ok_iff] at h
      obtain ⟨a, ha, h⟩ := h
      cases h
      rw [MicroOp.relabel, target, ha, Option.getD_some]

lemma mapLabels_failsFirst (places : List (StateId × Address)) (state : StateId)
    (step : OpStep ρ StateId) :
    FailsFirst (step.mapLabels (resolve places state)) (unresolved places state step.labels) := by
  rw [OpStep.labels, unresolved_flatMap]
  exact FailsFirst.mapM fun op _ => mapLabel_failsFirst places state op

lemma mapLabels_eq_ok {places : List (StateId × Address)} {state : StateId}
    {step : OpStep ρ StateId} {step' : OpStep ρ Address}
    (h : step.mapLabels (resolve places state) = .ok step') :
    step' = step.relabel (target places) := by
  rw [OpStep.mapLabels, mapM_eq_ok_iff] at h
  induction h with
  | nil => rfl
  | cons hop _ ih => rw [mapLabel_eq_ok hop, ih, OpStep.relabel, OpStep.relabel, List.map_cons]

lemma placeBlocks_failsFirst (places : List (StateId × Address)) (state : StateId) :
    ∀ (bodies : List (Body ρ)) (start : Address),
      FailsFirst (placeBlocks (resolve places state) start bodies)
        (unresolved places state (bodies.flatMap Body.labels))
  | [], _ => FailsFirst.of_ok []
  | body :: rest, start => by
      rw [placeBlocks, List.flatMap_cons]
      have hsplit : unresolved places state (Body.labels body ++ rest.flatMap Body.labels)
          = body.flatMap (fun step => unresolved places state step.labels)
            ++ unresolved places state (rest.flatMap Body.labels) := by
        rw [← unresolved_flatMap]
        simp [unresolved, Body.labels]
      rw [hsplit]
      refine FailsFirst.bind (FailsFirst.mapM fun step _ => ?_) fun steps _ => ?_
      · exact mapLabels_failsFirst places state step
      · exact (placeBlocks_failsFirst places state rest _).bind_pure

/-- Blocks laid out from an address, with their targets looked up. -/
def blocksAt (f : StateId → Address) (start : Address) : List (Body ρ) → List (Block ρ)
  | [] => []
  | body :: rest =>
    { start, steps := body.map (OpStep.relabel f) }
      :: blocksAt f (start.advance body.length) rest

/-- **Placing bodies changes their targets and nothing else.** -/
theorem placeBlocks_eq_ok {places : List (StateId × Address)} {state : StateId} :
    ∀ {bodies : List (Body ρ)} {start : Address} {blocks : List (Block ρ)},
      placeBlocks (resolve places state) start bodies = .ok blocks →
        blocks = blocksAt (target places) start bodies
  | [], _, _, h => by
      cases h
      rfl
  | body :: rest, start, blocks, h => by
      simp only [placeBlocks, bind_eq_ok_iff, mapM_eq_ok_iff] at h
      obtain ⟨steps, hsteps, others, hothers, h⟩ := h
      cases h
      have hmap : steps = body.map (OpStep.relabel (target places)) := by
        clear hothers
        induction hsteps with
        | nil => rfl
        | cons hstep _ ih => rw [mapLabels_eq_ok hstep, ih, List.map_cons]
      rw [blocksAt, hmap, placeBlocks_eq_ok hothers]

end Compiled

/-! ## Jumps of states -/

lemma Statement.labels_bodies {scheme : RegisterScheme ρ} :
    ∀ {statements : List Statement} {raised : List String} {bodies : List (Body ρ)},
      Statement.bodies scheme raised statements = .ok bodies →
        bodies.flatMap Body.labels = []
  | [], _, _, h => by
      cases h
      rfl
  | s :: rest, raised, bodies, h => by
      simp only [Statement.bodies, bind_eq_ok_iff] at h
      obtain ⟨body, hbody, others, hothers, h⟩ := h
      obtain ⟨_, o, _, _, rfl⟩ := Statement.body_eq_ok_iff.mp hbody
      cases h
      rw [List.flatMap_cons, Statement.labels_bodies hothers]
      rfl

lemma Body.labels_map_compute (computes : List (Compute ρ)) (rest : Body ρ) :
    Body.labels (computes.map (fun c => [MicroOp.compute c]) ++ rest) = rest.labels := by
  induction computes with
  | nil => rfl
  | cons c computes ih => exact ih

lemma Transition.labels_conditional (scheme : RegisterScheme ρ) (raised : List String)
    (target : StateId) (c : Expr) :
    Body.labels (Transition.conditional scheme raised target c) = [target] := by
  cases c with
  | leaf o => rfl
  | node l op r =>
      rw [Transition.conditional, Body.labels_map_compute]
      rfl

lemma Transition.labels_body {scheme : RegisterScheme ρ} {raised : List String} {t : Transition}
    {body : Body ρ} (h : t.body scheme raised = .ok body) : body.labels = [t.target] := by
  rcases Transition.body_eq_ok_iff.mp h with ⟨_, rfl⟩ | ⟨c, _, _, rfl⟩
  · rfl
  · exact Transition.labels_conditional scheme raised t.target c

lemma Transition.labels_bodies {scheme : RegisterScheme ρ} {raised : List String}
    {transitions : List Transition} {bodies : List (Body ρ)}
    (h : transitions.mapM (Transition.body scheme raised) = .ok bodies) :
    bodies.flatMap Body.labels = transitions.map Transition.target := by
  rw [mapM_eq_ok_iff] at h
  induction h with
  | nil => rfl
  | cons hbody _ ih =>
      rw [List.flatMap_cons, Transition.labels_body hbody, ih, List.map_cons,
        List.singleton_append]

/-- **A state jumps to the targets of its transitions**, one after the other, and nowhere else. -/
theorem State.labels_bodies {scheme : RegisterScheme ρ} {s : State} {bodies : List (Body ρ)}
    (h : s.bodies scheme = .ok bodies) :
    bodies.flatMap Body.labels = s.transitions.map Transition.target := by
  obtain ⟨statements, transitions, hs, ht, rfl⟩ := State.bodies_eq_ok_iff.mp h
  rw [List.flatMap_append, Statement.labels_bodies hs, List.nil_append]
  exact Transition.labels_bodies ht

/-! ## Compiling states -/

lemma State.compile_eq_ok_iff {scheme : RegisterScheme ρ} {s : State} {c : Compiled ρ} :
    s.compile scheme = .ok c ↔
      c.id = s.id ∧ s.bodies scheme = .ok c.bodies ∧ s.width < UInt32.size := by
  unfold State.compile
  cases hbodies : s.bodies scheme with
  | error cause => simp
  | ok bodies =>
      have hwidth : ({ id := s.id, bodies := bodies } : Compiled ρ).width = s.width :=
        State.length_flatten_bodies hbodies
      simp only [hwidth]
      constructor
      · intro h
        split_ifs at h with hfit
        cases h
        exact ⟨rfl, rfl, hfit⟩
      · rintro ⟨hid, hb, hfit⟩
        cases hb
        rw [if_pos hfit, ← hid]

lemma State.compile_failsFirst (scheme : RegisterScheme ρ) {s : State}
    (hfit : s.width < UInt32.size) :
    FailsFirst (s.compile scheme) (s.faults.map (.malformedExpression s.id)) := by
  have hbodies := s.bodies_failsFirst scheme
  cases hfaults : s.faults with
  | nil =>
      rw [hfaults] at hbodies
      obtain ⟨bodies, h⟩ := hbodies
      exact ⟨{ id := s.id, bodies }, State.compile_eq_ok_iff.mpr ⟨rfl, h, hfit⟩⟩
  | cons cause rest =>
      have h : s.bodies scheme = .error cause := hbodies.eq_error (by rw [hfaults]; rfl)
      unfold State.compile
      rw [h]
      exact rfl

/-- A compiled state keeps its id and is as wide as its source says. -/
lemma State.extent_of_compile {scheme : RegisterScheme ρ} {s : State} {c : Compiled ρ}
    (h : s.compile scheme = .ok c) : c.extent = s.extent := by
  obtain ⟨hid, hbodies, _⟩ := State.compile_eq_ok_iff.mp h
  rw [Compiled.extent, State.extent, Compiled.width, State.length_flatten_bodies hbodies, hid]

/-! ## Machines -/

namespace Machine

/-- What matters of the states of a machine when they are placed. -/
def extents (m : Machine τ) : List Extent := m.states.map State.extent

/-- The ids of the states of a machine. -/
def ids (m : Machine τ) : List StateId := m.states.map State.id

lemma map_id_extents (m : Machine τ) : m.extents.map Extent.id = m.ids := by
  rw [extents, List.map_map]
  rfl

lemma getElem?_extents {m : Machine τ} {i : Nat} {s : State} (hs : m.states[i]? = some s) :
    m.extents[i]? = some s.extent := by
  rw [extents, List.getElem?_map, hs]
  rfl

lemma exists_state_of_extent {m : Machine τ} {i : Nat} {e : Extent} (he : m.extents[i]? = some e) :
    ∃ s, m.states[i]? = some s ∧ s.extent = e := by
  rwa [extents, List.getElem?_map, Option.map_eq_some_iff] at he

lemma getElem?_ids {m : Machine τ} {i : Nat} {s : State} (hs : m.states[i]? = some s) :
    m.ids[i]? = some s.id := by
  rw [ids, List.getElem?_map, hs]
  rfl

/-- The malformed expressions of a machine. -/
def malformed (m : Machine τ) : List LowerError :=
  m.states.flatMap fun s => s.faults.map (.malformedExpression s.id)

/-- The footprints of the states of a machine, where they lie. -/
def footprints (m : Machine τ) : List Footprint :=
  m.extents.zipIdx.map fun p =>
    { id := p.1.id
      start := UInt32.ofNat (Placement.position m.extents p.2 p.1)
      stop := Placement.position m.extents p.2 p.1 + max p.1.width 1 }

/-- The jumps of a machine to ids that it does not have. -/
def unresolved (m : Machine τ) : List LowerError :=
  m.states.flatMap fun s =>
    (s.transitions.filter fun t => t.target ∉ m.ids).map fun t => .unresolvedLabel t.target s.id

lemma map_extent_of_compile {scheme : RegisterScheme ρ} {states : List State}
    {compiled : List (Compiled ρ)}
    (h : List.Forall₂ (fun s c => s.compile scheme = .ok c) states compiled) :
    compiled.map Compiled.extent = states.map State.extent := by
  induction h with
  | nil => rfl
  | cons hc _ ih => rw [List.map_cons, List.map_cons, State.extent_of_compile hc, ih]

lemma map_id_of_compile {scheme : RegisterScheme ρ} {states : List State}
    {compiled : List (Compiled ρ)}
    (h : List.Forall₂ (fun s c => s.compile scheme = .ok c) states compiled) :
    compiled.map Compiled.id = states.map State.id := by
  induction h with
  | nil => rfl
  | cons hc _ ih =>
      rw [List.map_cons, List.map_cons, (State.compile_eq_ok_iff.mp hc).1, ih]

/-- Assigned addresses give every state the footprint where it lies. -/
lemma ofExtents_eq_ok {m : Machine τ} {addresses : List Address}
    (h : Placement.assign m.extents = .ok addresses) :
    Footprint.ofExtents m.extents addresses = .ok m.footprints := by
  obtain ⟨_, hpos⟩ := Placement.assign_eq_ok h
  rw [Footprint.ofExtents_eq_ok]
  · congr 1
    refine List.ext_getElem? fun k => ?_
    rw [footprints, List.getElem?_map, List.getElem?_map, List.getElem?_zipIdx, Nat.zero_add]
    cases he : m.extents[k]? with
    | none => simp [List.zip, List.getElem?_zipWith, he]
    | some e =>
        obtain ⟨a, ha, hat, _⟩ := hpos he
        simp [List.zip, List.getElem?_zipWith, he, ha, ← hat]
  · intro p hp
    obtain ⟨k, hk⟩ := List.mem_iff_getElem?.mp hp
    obtain ⟨he, ha⟩ := List.getElem?_zip_eq_some.mp hk
    obtain ⟨a, ha', _, hfit⟩ := hpos he
    rw [ha] at ha'
    cases ha'
    exact hfit

/-- A label is not found exactly when no state declares it. -/
lemma lookup_zip_eq_none_iff {ids : List StateId} {addresses : List Address}
    (hlen : addresses.length = ids.length) {l : StateId} :
    (ids.zip addresses).lookup l = none ↔ l ∉ ids := by
  have hfst : (ids.zip addresses).map Prod.fst = ids := List.map_fst_zip (by omega)
  conv_rhs => rw [← hfst]
  rw [List.lookup_eq_none_iff, List.mem_map, not_exists]
  constructor
  · rintro h p ⟨hp, rfl⟩
    simpa using h p hp
  · intro h p hp
    rw [bne_iff_ne]
    exact fun he => h p ⟨hp, he.symm⟩

/-- The jumps of a state that are not found are those to ids that no state has. -/
lemma unresolved_transitions {ids : List StateId} {addresses : List Address}
    (hlen : addresses.length = ids.length) (state : StateId) (transitions : List Transition) :
    Compiled.unresolved (ids.zip addresses) state (transitions.map Transition.target)
      = (transitions.filter fun t => t.target ∉ ids).map fun t =>
          .unresolvedLabel t.target state := by
  rw [Compiled.unresolved, List.filter_map, List.map_map]
  congr 1
  refine List.filter_congr fun t _ => ?_
  rw [Function.comp_apply, Bool.eq_iff_iff, Option.isNone_iff_eq_none, decide_eq_true_iff]
  exact lookup_zip_eq_none_iff hlen

/-- Everything that can go wrong with a machine, in the order in which it is met. -/
def faults (m : Machine τ) : List LowerError :=
  m.malformed
    ++ (Placement.faults m.extents ++ (Footprint.collisions m.footprints ++ m.unresolved))

lemma place_failsFirst {scheme : RegisterScheme ρ} {places : List (StateId × Address)} {s : State}
    {c : Compiled ρ} (h : s.compile scheme = .ok c) (address : Address) :
    FailsFirst (c.place places address)
      (Compiled.unresolved places s.id (s.transitions.map Transition.target)) := by
  obtain ⟨hid, hbodies, _⟩ := State.compile_eq_ok_iff.mp h
  rw [← State.labels_bodies hbodies, ← hid]
  exact (Compiled.placeBlocks_failsFirst places c.id c.bodies address).bind_pure

lemma mapM_place_failsFirst {scheme : RegisterScheme ρ} {places : List (StateId × Address)}
    {states : List State} {compiled : List (Compiled ρ)}
    (h : List.Forall₂ (fun s c => s.compile scheme = .ok c) states compiled) :
    ∀ {addresses : List Address}, addresses.length = compiled.length →
      FailsFirst ((compiled.zip addresses).mapM fun x => x.1.place places x.2)
        (states.flatMap fun s =>
          Compiled.unresolved places s.id (s.transitions.map Transition.target)) := by
  induction h with
  | nil =>
      intro addresses _
      exact FailsFirst.of_ok []
  | @cons s c states compiled hc _ ih =>
      intro addresses hlen
      cases addresses with
      | nil => cases hlen
      | cons a addresses =>
          rw [List.zip_cons_cons, List.mapM_cons, List.flatMap_cons]
          refine (place_failsFirst hc a).bind fun q _ => ?_
          exact (ih (Nat.succ.inj hlen)).bind_pure

/-- **The first thing that goes wrong is what lowering tells**, if no state is too wide, and if
nothing goes wrong the machine is lowered. -/
theorem lower_failsFirst (scheme : RegisterScheme ρ) (m : Machine τ)
    (hfit : ∀ s ∈ m.states, s.width < UInt32.size) :
    FailsFirst (m.lower scheme) m.faults := by
  unfold lower faults
  refine FailsFirst.bind (FailsFirst.mapM fun s hs => s.compile_failsFirst scheme (hfit s hs))
    fun compiled hcompiled => ?_
  rw [mapM_eq_ok_iff] at hcompiled
  have hext : compiled.map Compiled.extent = m.extents := map_extent_of_compile hcompiled
  have hids : compiled.map Compiled.id = m.ids := map_id_of_compile hcompiled
  dsimp only
  rw [hext, hids]
  refine (Placement.assign_failsFirst m.extents).bind fun addresses haddresses => ?_
  rw [ofExtents_eq_ok haddresses]
  show FailsFirst (Footprint.checkDisjoint m.footprints >>= _) _
  refine FailsFirst.bind (Footprint.checkDisjoint_failsFirst m.footprints) fun _ _ => ?_
  have hlen : addresses.length = m.ids.length := by
    rw [(Placement.assign_eq_ok haddresses).1, extents, ids, List.length_map, List.length_map]
  have hunresolved : m.unresolved = m.states.flatMap fun s =>
      Compiled.unresolved (m.ids.zip addresses) s.id (s.transitions.map Transition.target) := by
    rw [unresolved]
    exact congrArg (m.states.flatMap ·)
      (funext fun s => (unresolved_transitions hlen s.id s.transitions).symm)
  rw [hunresolved]
  refine FailsFirst.bind_pure (mapM_place_failsFirst hcompiled ?_)
  rw [hlen, ← hids, List.length_map]

end Machine

/-! ## Machines that come through -/

/-- **A machine and its program.** -/
structure Lowered (scheme : RegisterScheme ρ) (m : Machine τ) (p : Program ρ τ) : Prop where
  timers_eq : p.timers = m.timers
  fits : ∀ s ∈ m.states, s.width < UInt32.size
  /-- The addresses of the program are the ones assigned. -/
  assign_eq : Placement.assign m.extents = .ok (p.states.map ProgramState.address)
  collisions_eq : Footprint.collisions m.footprints = []
  /-- State by state, the blocks are the bodies of the source, laid out from the address. -/
  states : List.Forall₂
    (fun s q => ∃ bodies, s.bodies scheme = .ok bodies
      ∧ Compiled.placeBlocks
          (Compiled.resolve (m.ids.zip (p.states.map ProgramState.address)) s.id)
          q.address bodies = .ok q.blocks)
    m.states p.states

namespace Machine

lemma forall₂_place {scheme : RegisterScheme ρ} {places : List (StateId × Address)}
    {states : List State} {compiled : List (Compiled ρ)}
    (h : List.Forall₂ (fun s c => s.compile scheme = .ok c) states compiled) :
    ∀ {addresses : List Address} {placed : List (ProgramState ρ)},
      addresses.length = compiled.length →
      List.Forall₂ (fun x q => x.1.place places x.2 = .ok q) (compiled.zip addresses) placed →
        placed.map ProgramState.address = addresses
          ∧ List.Forall₂
              (fun s q => ∃ bodies, s.bodies scheme = .ok bodies
                ∧ Compiled.placeBlocks (Compiled.resolve places s.id) q.address bodies
                    = .ok q.blocks)
              states placed := by
  induction h with
  | nil =>
      intro addresses placed hlen hplaced
      rw [List.zip_nil_left, List.forall₂_nil_left_iff] at hplaced
      rw [hplaced, List.eq_nil_of_length_eq_zero hlen]
      exact ⟨rfl, List.Forall₂.nil⟩
  | @cons s c states compiled hc _ ih =>
      intro addresses placed hlen hplaced
      cases addresses with
      | nil => cases hlen
      | cons a addresses =>
          rw [List.zip_cons_cons, List.forall₂_cons_left_iff] at hplaced
          obtain ⟨q, others, hq, hothers, rfl⟩ := hplaced
          obtain ⟨hid, hbodies, _⟩ := State.compile_eq_ok_iff.mp hc
          simp only [Compiled.place, bind_eq_ok_iff] at hq
          obtain ⟨blocks, hblocks, hq⟩ := hq
          cases hq
          obtain ⟨haddr, hrest⟩ := ih (Nat.succ.inj hlen) hothers
          rw [hid] at hblocks
          exact ⟨by rw [List.map_cons, haddr], List.Forall₂.cons ⟨_, hbodies, hblocks⟩ hrest⟩

/-- **What a machine that is lowered becomes.** -/
theorem lower_eq_ok {scheme : RegisterScheme ρ} {m : Machine τ} {p : Program ρ τ}
    (h : m.lower scheme = .ok p) : Lowered scheme m p := by
  simp only [lower, bind_eq_ok_iff, mapM_eq_ok_iff] at h
  obtain ⟨compiled, hcompiled, addresses, haddresses, fs, hfs, _, hdisjoint, placed, hplaced, h⟩ :=
    h
  have hext : compiled.map Compiled.extent = m.extents := map_extent_of_compile hcompiled
  have hids : compiled.map Compiled.id = m.ids := map_id_of_compile hcompiled
  rw [hext] at haddresses hfs
  rw [hids] at hplaced
  rw [ofExtents_eq_ok haddresses] at hfs
  cases hfs
  cases h
  have hlen : addresses.length = compiled.length := by
    rw [(Placement.assign_eq_ok haddresses).1, ← hext, List.length_map]
  obtain ⟨haddr, hstates⟩ := forall₂_place hcompiled hlen hplaced
  refine ⟨rfl, ?_, ?_, ?_, ?_⟩
  · intro s hs
    obtain ⟨k, hk⟩ := List.mem_iff_getElem?.mp hs
    obtain ⟨c, _, hc⟩ := forall₂_getElem? hcompiled hk
    exact (State.compile_eq_ok_iff.mp hc).2.2
  · rw [haddr]
    exact haddresses
  · exact (Footprint.checkDisjoint_failsFirst m.footprints).eq_nil hdisjoint
  · rw [haddr]
    exact hstates

end Machine

end Microstep
