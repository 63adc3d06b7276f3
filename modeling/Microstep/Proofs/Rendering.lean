import Microstep.Proofs.Relabeling
import Microstep.Register.Naming

/-!
# Register names are only a rendering

The lowering is given a register scheme and never looks at the registers it gets from it.  Whether
an operand is a temp is told by how it came about, not by how it is spelled.  So lowering with other
registers is lowering and then replacing the registers: if `f` is applied to every register of a
scheme, it is applied to every register of the program, and nothing else changes
(`Machine.lower_map`).

Every scheme is the one that keeps all registers apart, with `RegisterScheme.render` applied to it
(`RegisterScheme.map_render_free`).  Hence the program at any naming is the program over abstract
registers with their names filled in (`Machine.lower_renders`).
-/

namespace Microstep

variable {ρ σ υ τ κ κ' : Type}

/-! ## Other registers -/

namespace RegisterScheme

/-- **A scheme with other registers.** -/
def map (f : ρ → σ) (scheme : RegisterScheme ρ) : RegisterScheme σ :=
  { user := fun v => f (scheme.user v)
    signal := fun counter => f (scheme.signal counter)
    temp := fun index => f (scheme.temp index)
    guard := f scheme.guard }

@[simp] lemma signal_map (f : ρ → σ) (scheme : RegisterScheme ρ) (counter : String) :
    (scheme.map f).signal counter = f (scheme.signal counter) := rfl

@[simp] lemma temp_map (f : ρ → σ) (scheme : RegisterScheme ρ) (index : Nat) :
    (scheme.map f).temp index = f (scheme.temp index) := rfl

@[simp] lemma guard_map (f : ρ → σ) (scheme : RegisterScheme ρ) :
    (scheme.map f).guard = f scheme.guard := rfl

/-- **Every scheme is a rendering of the one that keeps registers apart.** -/
lemma map_render_free (scheme : RegisterScheme ρ) : free.map scheme.render = scheme := rfl

lemma read_map (f : ρ → σ) (scheme : RegisterScheme ρ) (raised : List String) :
    (scheme.map f).read raised = fun v => f (scheme.read raised v) := by
  funext v
  simp only [read, map]
  split_ifs <;> rfl

end RegisterScheme

@[simp] lemma Operand.map_name (f : ρ → σ) (r : ρ) :
    (Operand.name r).map f = .name (f r) := rfl

lemma Operand.map_map (f : ρ → σ) (g : σ → υ) (o : Operand ρ) :
    (o.map f).map g = o.map fun r => g (f r) := by
  cases o <;> rfl

@[simp] lemma Operand.isLiteral_map (f : ρ → σ) (o : Operand ρ) :
    (o.map f).isLiteral = o.isLiteral := by
  cases o <;> rfl

def Compute.mapRegisters (f : ρ → σ) (c : Compute ρ) : Compute σ :=
  { left := c.left.map f
    right := c.right.map f
    operator := c.operator
    countFromInput := c.countFromInput
    out := f c.out }

def MicroOp.mapRegisters (f : ρ → σ) : MicroOp ρ κ → MicroOp σ κ
  | .openGuard => .openGuard
  | .compute c => .compute (c.mapRegisters f)
  | .branch r target => .branch (f r) target

def OpStep.mapRegisters (f : ρ → σ) (step : OpStep ρ κ) : OpStep σ κ :=
  step.map (MicroOp.mapRegisters f)

def Body.mapRegisters (f : ρ → σ) (body : Body ρ) : Body σ := body.map (OpStep.mapRegisters f)

def Compiled.mapRegisters (f : ρ → σ) (c : Compiled ρ) : Compiled σ :=
  { id := c.id, bodies := c.bodies.map (Body.mapRegisters f) }

def Block.mapRegisters (f : ρ → σ) (b : Block ρ) : Block σ :=
  { start := b.start, steps := b.steps.map (OpStep.mapRegisters f) }

def ProgramState.mapRegisters (f : ρ → σ) (q : ProgramState ρ) : ProgramState σ :=
  { address := q.address, blocks := q.blocks.map (Block.mapRegisters f) }

/-- **A program with other registers.**  Its timers, addresses, operators, literals, marks and
branch targets stay as they are. -/
def Program.mapRegisters (f : ρ → σ) (p : Program ρ τ) : Program σ τ :=
  { timers := p.timers, states := p.states.map (ProgramState.mapRegisters f) }

lemma MicroOp.mapRegisters_mapRegisters (f : ρ → σ) (g : σ → υ) (op : MicroOp ρ κ) :
    (op.mapRegisters f).mapRegisters g = op.mapRegisters fun r => g (f r) := by
  cases op <;> simp [mapRegisters, Compute.mapRegisters, Operand.map_map]

/-- Replacing registers twice is replacing them once. -/
lemma Program.mapRegisters_mapRegisters (f : ρ → σ) (g : σ → υ) (p : Program ρ τ) :
    (p.mapRegisters f).mapRegisters g = p.mapRegisters fun r => g (f r) := by
  simp [mapRegisters, ProgramState.mapRegisters, Block.mapRegisters, OpStep.mapRegisters,
    MicroOp.mapRegisters_mapRegisters, Function.comp_def]

/-! ## Reductions -/

def Reduced.map (f : ρ → σ) : Reduced ρ → Reduced σ
  | .leaf o => .leaf (o.map f)
  | .temp n => .temp n

def Reduction.map (f : ρ → σ) (r : Reduction ρ) : Reduction σ :=
  { computes := r.computes.map (Compute.mapRegisters f)
    result := r.result.map f
    issued := r.issued }

def Reduction.OfNode.map (f : ρ → σ) (n : Reduction.OfNode ρ) : Reduction.OfNode σ :=
  { before := n.before.map (Compute.mapRegisters f)
    compute := n.compute.mapRegisters f
    out := n.out
    issued := n.issued }

section

variable (f : ρ → σ) (scheme : RegisterScheme ρ)

lemma Reduced.operand_map (r : Reduced ρ) :
    (r.map f).operand (scheme.map f) = (r.operand scheme).map f := by
  cases r <;> rfl

/-- Whether there is a temp to take over does not depend on registers. -/
lemma Reduction.target_map (left right : Reduced ρ) (issued : Nat) :
    target (left.map f) (right.map f) issued = target left right issued := by
  cases left <;> cases right <;> rfl

lemma Reduction.combine_map (op : Operator) (left right : Reduction ρ) :
    combine (scheme.map f) op (left.map f) (right.map f)
      = (combine scheme op left right).map f := by
  simp only [combine, Reduction.map, OfNode.map, Compute.mapRegisters, Reduction.target_map,
    Reduced.operand_map, Operand.isLiteral_map, List.map_append]
  rfl

/-- **An expression is reduced in the same way.** -/
theorem Expr.reduce_map (read : String → ρ) (e : Expr) :
    ∀ issued, e.reduce (scheme.map f) (fun v => f (read v)) issued
      = (e.reduce scheme read issued).map f := by
  induction e with
  | leaf o =>
      intro issued
      simp [Expr.reduce, Reduction.map, Reduced.map, Operand.map_map]
  | node l op r ihl ihr =>
      intro issued
      -- the right operand starts from as many temps, since the left one issued as many
      have hissued : ((l.reduce scheme read issued).map f).issued
          = (l.reduce scheme read issued).issued := rfl
      simp only [Expr.reduce, ihl, hissued, ihr, Reduction.combine_map]
      simp [Reduction.OfNode.toReduction, Reduction.OfNode.map, Reduction.map, Reduced.map]

/-! ## Bodies -/

lemma Statement.body_map (raised : List String) (s : Statement) :
    Lockstep (fun cause => cause) (fun body body' => body' = Body.mapRegisters f body)
      (s.body scheme raised) (s.body (scheme.map f) raised) := by
  unfold Statement.body
  split_ifs with hout
  · exact rfl
  · cases s.amount with
    | node l op r => exact rfl
    | leaf o =>
        dsimp only
        split_ifs with hname
        · exact rfl
        · simp [Lockstep, Body.mapRegisters, OpStep.mapRegisters, MicroOp.mapRegisters,
            Compute.mapRegisters, RegisterScheme.read_map, Operand.map_map]

lemma Statement.bodies_map :
    ∀ (statements : List Statement) (raised : List String),
      Lockstep (fun cause => cause)
        (fun bodies bodies' => bodies' = bodies.map (Body.mapRegisters f))
        (Statement.bodies scheme raised statements)
        (Statement.bodies (scheme.map f) raised statements)
  | [], _ => rfl
  | s :: rest, raised => by
      rw [Statement.bodies, Statement.bodies]
      refine (s.body_map f scheme raised).bind fun body body' _ hbody => ?_
      refine (Statement.bodies_map rest (s.out :: raised)).bind_pure
        fun bodies bodies' hbodies => ?_
      rw [hbody, hbodies, List.map_cons]

lemma Transition.conditional_map (raised : List String) (target : StateId) (c : Expr) :
    Transition.conditional (scheme.map f) raised target c
      = Body.mapRegisters f (Transition.conditional scheme raised target c) := by
  cases c with
  | leaf o =>
      simp [Transition.conditional, Transition.gated, Body.mapRegisters, OpStep.mapRegisters,
        MicroOp.mapRegisters, Compute.mapRegisters, RegisterScheme.read_map, Operand.map_map]
  | node l op r =>
      have hissued : ∀ e : Reduction ρ, (e.map f).issued = e.issued := fun _ => rfl
      simp only [Transition.conditional, RegisterScheme.read_map, Expr.reduce_map, hissued,
        Reduction.combine_map]
      simp [Transition.gated, Body.mapRegisters, OpStep.mapRegisters, MicroOp.mapRegisters,
        Reduction.OfNode.map, Compute.mapRegisters]

lemma Transition.body_map (raised : List String) (t : Transition) :
    Lockstep (fun cause => cause) (fun body body' => body' = Body.mapRegisters f body)
      (t.body scheme raised) (t.body (scheme.map f) raised) := by
  unfold Transition.body
  cases t.condition with
  | none => exact rfl
  | some c =>
      dsimp only
      split_ifs with hname
      · exact rfl
      · exact Transition.conditional_map f scheme raised t.target c

lemma State.bodies_map (s : State) :
    Lockstep (fun cause => cause) (fun bodies bodies' => bodies' = bodies.map (Body.mapRegisters f))
      (s.bodies scheme) (s.bodies (scheme.map f)) := by
  rw [State.bodies, State.bodies]
  refine (Statement.bodies_map f scheme s.statements []).bind fun statements statements' _ hs => ?_
  have htransitions := Lockstep.mapM_map (j := fun t => t) fun t (_ : t ∈ s.transitions) =>
    t.body_map f scheme (s.statements.map Statement.out)
  rw [List.map_id'] at htransitions
  refine htransitions.bind_pure fun transitions transitions' ht => ?_
  rw [hs, ht, List.map_append]

/-! ## Machines -/

lemma Compiled.extent_mapRegisters (c : Compiled ρ) : (c.mapRegisters f).extent = c.extent := by
  simp [Compiled.extent, Compiled.width, Compiled.mapRegisters, Body.mapRegisters,
    List.length_flatten, Function.comp_def]

/-- **A state is compiled in the same way**, and fails for the same cause. -/
theorem State.compile_map (s : State) :
    Lockstep (fun e => e) (fun c c' => c' = c.mapRegisters f) (s.compile scheme)
      (s.compile (scheme.map f)) := by
  rw [State.compile, State.compile, (s.bodies_map f scheme).eq_map]
  cases s.bodies scheme with
  | error cause => exact rfl
  | ok bodies =>
      have hwidth : (Compiled.mapRegisters f { id := s.id, bodies }).width
          = ({ id := s.id, bodies } : Compiled ρ).width :=
        congrArg Extent.width (Compiled.extent_mapRegisters f _)
      show Lockstep _ _ _ (if (Compiled.mapRegisters f { id := s.id, bodies }).width < UInt32.size
        then .ok (Compiled.mapRegisters f { id := s.id, bodies })
        else .error (LowerError.addressOverflow s.id))
      rw [hwidth]
      dsimp only
      split_ifs with hfit
      · exact rfl
      · exact rfl

variable (resolve : StateId → Except LowerError Address)

lemma OpStep.mapLabels_mapRegisters (step : OpStep ρ StateId) :
    Lockstep (fun e => e) (fun step step' => step' = OpStep.mapRegisters f step)
      (step.mapLabels resolve) ((step.mapRegisters f).mapLabels resolve) := by
  refine Lockstep.mapM_map fun op _ => ?_
  cases op with
  | openGuard => exact rfl
  | compute c => exact rfl
  | branch r target =>
      exact (Lockstep.refl (resolve target)).bind_pure fun _ _ ha => by rw [ha]; rfl

lemma Compiled.placeBlocks_mapRegisters :
    ∀ (bodies : List (Body ρ)) (start : Address),
      Lockstep (fun e => e) (fun blocks blocks' => blocks' = blocks.map (Block.mapRegisters f))
        (Compiled.placeBlocks resolve start bodies)
        (Compiled.placeBlocks resolve start (bodies.map (Body.mapRegisters f)))
  | [], _ => rfl
  | body :: rest, start => by
      have hbody := Lockstep.mapM_map fun step (_ : step ∈ body) =>
        OpStep.mapLabels_mapRegisters f resolve step
      rw [List.map_cons, Compiled.placeBlocks, Compiled.placeBlocks, Body.mapRegisters,
        List.length_map]
      refine hbody.bind fun steps steps' _ hsteps => ?_
      refine (Compiled.placeBlocks_mapRegisters rest _).bind_pure fun blocks blocks' hblocks => ?_
      rw [hsteps, hblocks]
      rfl

lemma Compiled.place_mapRegisters (places : List (StateId × Address)) (c : Compiled ρ)
    (address : Address) :
    Lockstep (fun e => e) (fun q q' => q' = ProgramState.mapRegisters f q)
      (c.place places address) ((c.mapRegisters f).place places address) := by
  rw [Compiled.place, Compiled.place]
  refine (Compiled.placeBlocks_mapRegisters f _ c.bodies address).bind_pure
    fun blocks blocks' hb => ?_
  rw [hb]
  rfl

/-- **Lowering with other registers** is lowering, and then replacing the registers. -/
theorem Machine.lower_map (m : Machine τ) :
    m.lower (scheme.map f) = Program.mapRegisters f <$> m.lower scheme := by
  refine Lockstep.eq_map ?_
  rw [Machine.lower, Machine.lower]
  have hcompile := Lockstep.mapM_map (j := fun s => s) fun s (_ : s ∈ m.states) =>
    s.compile_map f scheme
  rw [List.map_id'] at hcompile
  refine hcompile.bind fun compiled compiled' _ hcompiled => ?_
  subst hcompiled
  have hext : (compiled.map (Compiled.mapRegisters f)).map Compiled.extent
      = compiled.map Compiled.extent := by
    rw [List.map_map]
    exact List.map_congr_left fun c _ => c.extent_mapRegisters f
  have hids : (compiled.map (Compiled.mapRegisters f)).map Compiled.id
      = compiled.map Compiled.id := by
    rw [List.map_map]
    rfl
  dsimp only
  rw [hext, hids]
  -- from here on both see the same extents and ids, up to the last pass
  refine (Lockstep.refl _).bind fun addresses addresses' _ haddresses => ?_
  subst haddresses
  refine (Lockstep.refl _).bind fun footprints footprints' _ hfootprints => ?_
  subst hfootprints
  refine (Lockstep.refl _).bind fun _ _ _ _ => ?_
  rw [zip_map_left (Compiled.mapRegisters f)]
  refine Lockstep.bind_pure (Lockstep.mapM_map fun x _ => ?_) fun states states' h => by rw [h]; rfl
  exact Compiled.place_mapRegisters f _ x.1 x.2

end

/-! ## Namings -/

/-- **What a naming calls a register.**  A variable keeps its name, a signal is its counter and a
temp its suffix, each behind its stem, and the guard has a name of its own. -/
def Naming.render (n : Naming) : Register → String
  | .user v => v
  | .signal counter => n.signalStem ++ counter
  | .temp index => n.tempStem ++ Suffix.ofNat index
  | .guard => n.guard

lemma Naming.render_scheme (n : Naming) : n.scheme.render = n.render := by
  funext r
  cases r <;> rfl

/-- **Register names are only a rendering.**  For every machine there is one result, an error or a
program over abstract registers, from which what it is lowered to is obtained for every naming by
calling the registers what the naming calls them.  So two namings never differ in anything but
registers: the one result is an error exactly if the other is the same error, and apart from their
registers the programs are the same.  Nothing is asked of the names that variables have. -/
theorem Machine.lower_renders (m : Machine τ) :
    ∃ abstract : Except LowerError (Program Register τ),
      (∀ n : Naming, m.lower n.scheme = Program.mapRegisters n.render <$> abstract)
      ∧ ∀ n n' : Naming,
          Program.mapRegisters (fun _ => ()) <$> m.lower n.scheme
            = Program.mapRegisters (fun _ => ()) <$> m.lower n'.scheme := by
  have hrender : ∀ n : Naming,
      m.lower n.scheme = Program.mapRegisters n.render <$> m.lower RegisterScheme.free := by
    intro n
    rw [← n.render_scheme, ← Machine.lower_map, RegisterScheme.map_render_free]
  refine ⟨m.lower RegisterScheme.free, hrender, fun n n' => ?_⟩
  rw [hrender n, hrender n', Functor.map_map, Functor.map_map]
  simp only [Program.mapRegisters_mapRegisters]

end Microstep
