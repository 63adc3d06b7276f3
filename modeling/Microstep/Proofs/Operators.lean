import Microstep.Proofs.Branches

/-!
# The operators of a program

Which operators a machine and a program are made of, and which of them lowering brings in.  A lowered
machine computes the operators of its conditions, operands first, and multiplies: once for each
statement, and once for each condition to gate it (`Lowered.operators_eq`).  So what holds of
multiplication and of the operators of a machine holds of those of its program
(`Lowered.mem_operators`); the case in point is that an operator is the one its symbol stands for
(`Canonical`).
-/

namespace Microstep

variable {ρ κ κ' τ : Type}

/-! ## Operators of machines -/

/-- The operators of an expression, in the order in which they are computed. -/
def Expr.operators : Expr → List Operator
  | .leaf _ => []
  | .node l op r => l.operators ++ r.operators ++ [op]

def Statement.operators (s : Statement) : List Operator := s.amount.operators ++ [s.operator]

def Transition.operators (t : Transition) : List Operator :=
  t.condition.toList.flatMap Expr.operators

def State.operators (s : State) : List Operator :=
  s.statements.flatMap Statement.operators ++ s.transitions.flatMap Transition.operators

/-- **The operators of a machine.** -/
def Machine.operators (m : Machine τ) : List Operator := m.states.flatMap State.operators

/-! ## Operators of programs -/

/-- The operator of a micro-op, if it computes. -/
def MicroOp.operator? : MicroOp ρ κ → Option Operator
  | .openGuard => none
  | .compute c => some c.operator
  | .branch _ _ => none

def OpStep.operators (step : OpStep ρ κ) : List Operator :=
  step.flatMap fun op => op.operator?.toList

def Body.operators (body : Body ρ) : List Operator := body.flatMap OpStep.operators

def Block.operators (b : Block ρ) : List Operator := b.steps.flatMap OpStep.operators

def ProgramState.operators (q : ProgramState ρ) : List Operator := q.blocks.flatMap Block.operators

/-- **The operators of a program.** -/
def Program.operators (p : Program ρ τ) : List Operator := p.states.flatMap ProgramState.operators

/-! ## Canonical operators -/

/-- All operators of a list are those that their symbols stand for. -/
def Canonical (operators : List Operator) : Prop := ∀ op ∈ operators, op.IsCanonical

lemma canonical_append {left right : List Operator} :
    Canonical (left ++ right) ↔ Canonical left ∧ Canonical right :=
  List.forall_mem_append

lemma canonical_singleton {op : Operator} : Canonical [op] ↔ op.IsCanonical :=
  List.forall_mem_singleton

lemma canonical_flatMap {α : Type} {f : α → List Operator} {l : List α} :
    Canonical (l.flatMap f) ↔ ∀ a ∈ l, Canonical (f a) := by
  simp only [Canonical, List.mem_flatMap]
  exact ⟨fun h a ha op hop => h op ⟨a, ha, hop⟩, fun h op ⟨a, ha, hop⟩ => h a ha op hop⟩

/-! ## What lowering computes -/

/-- The operators that a transition computes: those of its condition, and the gating. -/
def Transition.computed (t : Transition) : List Operator :=
  match t.condition with
  | none => []
  | some c => c.operators ++ [.mul]

/-- The operators that a state computes. -/
def State.computed (s : State) : List Operator :=
  (s.statements.map fun _ => .mul) ++ s.transitions.flatMap Transition.computed

lemma OpStep.operators_relabel (f : κ → κ') (step : OpStep ρ κ) :
    OpStep.operators (step.relabel f) = step.operators := by
  rw [OpStep.operators, OpStep.relabel, List.flatMap_map]
  refine List.flatMap_congr fun op _ => ?_
  cases op <;> rfl

lemma Expr.operators_reduce (scheme : RegisterScheme ρ) (read : String → ρ) (e : Expr) :
    ∀ issued, (e.reduce scheme read issued).computes.map Compute.operator = e.operators := by
  induction e with
  | leaf o => exact fun _ => rfl
  | node l op r ihl ihr =>
      intro issued
      simp [Expr.reduce, Reduction.combine, Reduction.OfNode.toReduction, Expr.operators, ihl, ihr]

lemma Body.operators_map_compute (computes : List (Compute ρ)) (rest : Body ρ) :
    Body.operators (computes.map (fun c => [MicroOp.compute c]) ++ rest)
      = computes.map Compute.operator ++ rest.operators := by
  induction computes with
  | nil => rfl
  | cons c computes ih => exact congrArg (c.operator :: ·) ih

lemma Transition.operators_conditional (scheme : RegisterScheme ρ) (raised : List String)
    (target : StateId) (c : Expr) :
    Body.operators (Transition.conditional scheme raised target c) = c.operators ++ [.mul] := by
  cases c with
  | leaf o => rfl
  | node l op r =>
      rw [Transition.conditional, Body.operators_map_compute]
      simp [Reduction.combine, Expr.operators_reduce, Expr.operators, Body.operators,
        OpStep.operators, MicroOp.operator?, Transition.gated]

lemma Transition.operators_body {scheme : RegisterScheme ρ} {raised : List String} {t : Transition}
    {body : Body ρ} (h : t.body scheme raised = .ok body) : body.operators = t.computed := by
  rcases Transition.body_eq_ok_iff.mp h with ⟨hnone, rfl⟩ | ⟨c, hsome, _, rfl⟩
  · rw [Transition.computed, hnone]
    rfl
  · rw [Transition.computed, hsome, Transition.operators_conditional]

lemma Transition.operators_bodies {scheme : RegisterScheme ρ} {raised : List String}
    {transitions : List Transition} {bodies : List (Body ρ)}
    (h : transitions.mapM (Transition.body scheme raised) = .ok bodies) :
    bodies.flatMap Body.operators = transitions.flatMap Transition.computed := by
  rw [mapM_eq_ok_iff] at h
  induction h with
  | nil => rfl
  | cons hbody _ ih => rw [List.flatMap_cons, List.flatMap_cons, operators_body hbody, ih]

lemma Statement.operators_bodies {scheme : RegisterScheme ρ} :
    ∀ {statements : List Statement} {raised : List String} {bodies : List (Body ρ)},
      Statement.bodies scheme raised statements = .ok bodies →
        bodies.flatMap Body.operators = statements.map fun _ => .mul
  | [], _, _, h => by
      cases h
      rfl
  | s :: rest, raised, bodies, h => by
      simp only [Statement.bodies, bind_eq_ok_iff] at h
      obtain ⟨body, hbody, others, hothers, h⟩ := h
      obtain ⟨_, o, _, _, rfl⟩ := Statement.body_eq_ok_iff.mp hbody
      cases h
      rw [List.flatMap_cons, Statement.operators_bodies hothers]
      rfl

lemma Compiled.operators_blocksAt (f : StateId → Address) (bodies : List (Body ρ))
    (start : Address) :
    (blocksAt f start bodies).flatMap Block.operators = bodies.flatMap Body.operators := by
  have hsteps := map_steps_blocksAt f bodies start
  calc (blocksAt f start bodies).flatMap Block.operators
      = ((blocksAt f start bodies).map Block.steps).flatMap (List.flatMap OpStep.operators) := by
        rw [List.flatMap_map]
        rfl
    _ = bodies.flatMap Body.operators := by
        rw [hsteps, List.flatMap_map]
        refine List.flatMap_congr fun body _ => ?_
        rw [List.flatMap_map, Body.operators]
        exact List.flatMap_congr fun step _ => OpStep.operators_relabel f step

namespace Lowered

variable {scheme : RegisterScheme ρ} {m : Machine τ} {p : Program ρ τ}

/-- **The operators of a lowered machine**, state by state. -/
theorem operators_eq (h : Lowered scheme m p) :
    p.operators = m.states.flatMap State.computed := by
  have hstates : p.states.map ProgramState.operators = m.states.map State.computed := by
    rw [← List.forall₂_eq_eq_eq, List.forall₂_map_left_iff, List.forall₂_map_right_iff]
    refine h.states.flip.imp fun q s hqs => ?_
    obtain ⟨bodies, hbodies, hblocks⟩ := hqs
    obtain ⟨statements, transitions, hstatements, htransitions, rfl⟩ :=
      State.bodies_eq_ok_iff.mp hbodies
    rw [ProgramState.operators, Compiled.placeBlocks_eq_ok hblocks, Compiled.operators_blocksAt,
      List.flatMap_append, Statement.operators_bodies hstatements,
      Transition.operators_bodies htransitions, State.computed]
  rw [Program.operators, List.flatMap_def, hstates, ← List.flatMap_def]

/-- A lowered machine multiplies, and computes the operators of its conditions. -/
theorem mem_operators (h : Lowered scheme m p) {op : Operator} (hop : op ∈ p.operators) :
    op = .mul ∨ op ∈ m.operators := by
  rw [h.operators_eq, List.mem_flatMap] at hop
  obtain ⟨s, hs, hop⟩ := hop
  rw [State.computed, List.mem_append, List.mem_map, List.mem_flatMap] at hop
  rcases hop with ⟨_, _, rfl⟩ | ⟨t, ht, hop⟩
  · exact Or.inl rfl
  · cases hcond : t.condition with
    | none => simp [Transition.computed, hcond] at hop
    | some c =>
        rw [Transition.computed, hcond, List.mem_append, List.mem_singleton] at hop
        refine hop.symm.imp_right fun hop => ?_
        have hmem : op ∈ t.operators := by
          rw [Transition.operators, hcond]
          simpa using hop
        rw [Machine.operators, List.mem_flatMap]
        exact ⟨s, hs, List.mem_append_right _ (List.mem_flatMap.mpr ⟨t, ht, hmem⟩)⟩

end Lowered

end Microstep
