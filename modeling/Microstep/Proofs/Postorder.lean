import Microstep.Proofs.Discipline
import Microstep.Proofs.Operators

/-!
# Conditions are computed operands first

The computes of an expression are its operations, operands first and from left to right.
`Expr.postorder` lists the operations in that order, and `Expr.carriesOut_reduce` says that the
computes match them one by one: same operator, single operands read where they stand, and everything
else read from a temp.

In a block the last of these computes shares its op-step with the opening of the guard, and one more
multiplies the value with the guard (`Transition.conditional_of_node`).

Whether a compute takes its count from the input is decided by the compute itself: it is marked as
one that does not exactly when it compares with a literal (`Compute.WellMarked`).  That this agrees
with the condition as it is written is `Compute.CarriesOut.isLiteral_right`.
-/

namespace Microstep

variable {ρ τ : Type}

/-! ## Operations in order -/

/-- An operation of an expression, with its operands. -/
structure Expr.Operation where
  left : Expr
  operator : Operator
  right : Expr

namespace Expr

/-- **The operations of an expression**, those of the left operand first, then those of the right
one, then the outermost. -/
def postorder : Expr → List Operation
  | .leaf _ => []
  | .node l op r => l.postorder ++ r.postorder ++ [⟨l, op, r⟩]

lemma length_postorder (e : Expr) : e.postorder.length = e.operations := by
  induction e with
  | leaf o => rfl
  | node l op r ihl ihr => simp [postorder, operations, ihl, ihr, Nat.add_assoc]

lemma map_operator_postorder (e : Expr) : e.postorder.map Operation.operator = e.operators := by
  induction e with
  | leaf o => rfl
  | node l op r ihl ihr => simp [postorder, operators, ihl, ihr]

lemma isLeaf_eq_false_iff (e : Expr) : e.isLeaf = false ↔ 1 ≤ e.operations := by
  cases e with
  | leaf o => simp [isLeaf, leaf?, operations]
  | node l op r => simp [isLeaf, leaf?, operations]

end Expr

/-! ## Marks -/

lemma Operator.isComparison_iff (op : Operator) :
    op.isComparison = true ↔ op ∈ [eq, ne, lt, le, gt, ge] := by
  cases op <;> simp [isComparison]

namespace Compute

/-- **A compute is marked as not taking its count from the input exactly when it compares with a
literal**, and not marked otherwise. -/
def WellMarked (c : Compute ρ) : Prop :=
  c.countFromInput = if c.operator.isComparison && c.right.isLiteral then some false else none

variable {c : Compute ρ}

lemma WellMarked.eq_some_false_iff (h : c.WellMarked) :
    c.countFromInput = some false ↔ c.operator.isComparison = true ∧ c.right.isLiteral = true := by
  rw [h, ← Bool.and_eq_true]
  split_ifs with hmark <;> simp [hmark]

lemma WellMarked.eq_none_iff (h : c.WellMarked) :
    c.countFromInput = none
      ↔ ¬ (c.operator.isComparison = true ∧ c.right.isLiteral = true) := by
  rw [h, ← Bool.and_eq_true]
  split_ifs with hmark <;> simp [hmark]

lemma WellMarked.ne_some_true (h : c.WellMarked) : c.countFromInput ≠ some true := by
  rw [h]
  split_ifs <;> simp

/-- What multiplies needs no mark. -/
lemma wellMarked_of_mul (hop : c.operator = .mul) (hcount : c.countFromInput = none) :
    c.WellMarked := by
  rw [WellMarked, hop, hcount]
  rfl

/-! ## Computes and operations -/

/-- **A compute carries out an operation**: it has the operator, reads the operands that are single
ones as they are and the others from temps, and is marked as it should be. -/
structure CarriesOut (scheme : RegisterScheme ρ) (read : String → ρ) (op : Expr.Operation)
    (c : Compute ρ) : Prop where
  operator_eq : c.operator = op.operator
  left_leaf : ∀ o, op.left = .leaf o → c.left = o.map read
  left_node : op.left.isLeaf = false → ∃ n, c.left = .name (scheme.temp n)
  right_leaf : ∀ o, op.right = .leaf o → c.right = o.map read
  right_node : op.right.isLeaf = false → ∃ n, c.right = .name (scheme.temp n)
  wellMarked : c.WellMarked

/-- A compute reads a literal on the right exactly where one is written. -/
lemma CarriesOut.isLiteral_right {scheme : RegisterScheme ρ} {read : String → ρ}
    {op : Expr.Operation} (h : CarriesOut scheme read op c) :
    c.right.isLiteral = true ↔ ∃ v, op.right = .leaf (.literal v) := by
  cases hright : op.right with
  | leaf o =>
      rw [h.right_leaf o hright]
      cases o <;> simp [Operand.map, Operand.isLiteral]
  | node l op' r =>
      obtain ⟨n, hn⟩ := h.right_node (by rw [hright]; rfl)
      simp [hn, Operand.isLiteral]

end Compute

namespace Expr

/-- Where an operand is read from: as it is if it is a single one, and otherwise from a temp. -/
lemma operand_reduce (scheme : RegisterScheme ρ) (read : String → ρ) (e : Expr) (k : Nat) :
    (∀ o, e = .leaf o → (e.reduce scheme read k).result.operand scheme = o.map read)
      ∧ (e.isLeaf = false →
          ∃ n, (e.reduce scheme read k).result.operand scheme = .name (scheme.temp n)) := by
  constructor
  · rintro o rfl
    rfl
  · intro h
    exact ⟨k, by rw [result_reduce scheme read h]; rfl⟩

/-- **The computes of an expression carry out its operations**, one by one and in order. -/
theorem carriesOut_reduce (scheme : RegisterScheme ρ) (read : String → ρ) (e : Expr) (k : Nat) :
    List.Forall₂ (Compute.CarriesOut scheme read) e.postorder
      (e.reduce scheme read k).computes := by
  induction e generalizing k with
  | leaf o => exact List.Forall₂.nil
  | node l op r ihl ihr =>
      rw [postorder, computes_reduce_node]
      refine List.rel_append (List.rel_append (ihl k) (ihr _)) (List.Forall₂.cons ?_ .nil)
      obtain ⟨hleaf, hnode⟩ := operand_reduce scheme read l k
      obtain ⟨hleaf', hnode'⟩ := operand_reduce scheme read r (l.reduce scheme read k).issued
      exact ⟨rfl, hleaf, hnode, hleaf', hnode', rfl⟩

/-- The last compute of an expression puts the value where the reduction says it is. -/
lemma out_of_computes_eq {scheme : RegisterScheme ρ} {read : String → ρ} {e : Expr} {k : Nat}
    {inner : List (Compute ρ)} {outer : Compute ρ}
    (h : (e.reduce scheme read k).computes = inner ++ [outer]) : outer.out = scheme.temp k := by
  cases e with
  | leaf o => simp [reduce] at h
  | node l op r =>
      have hresult := result_reduce scheme read (e := .node l op r) rfl k
      rw [result_reduce_node, Reduced.temp.injEq] at hresult
      rw [computes_reduce_node] at h
      obtain ⟨_, hlast⟩ := List.append_inj' h rfl
      cases hlast
      exact congrArg scheme.temp hresult

end Expr

/-! ## Bodies of conditions -/

namespace Transition

/-- Multiplies a value with the guard into the first temp. -/
def gate (scheme : RegisterScheme ρ) (value : Operand ρ) : Compute ρ :=
  { left := value
    right := .name scheme.guard
    operator := .mul
    countFromInput := none
    out := scheme.temp 0 }

/-- **What a condition computes**: what it is reduced to, and the gate. -/
lemma computes_conditional (scheme : RegisterScheme ρ) (raised : List String) (target : StateId)
    (c : Expr) :
    (conditional scheme raised target c).flatMap OpStep.computes
      = (c.reduce scheme (scheme.read raised) 0).computes
        ++ [gate scheme ((c.reduce scheme (scheme.read raised) 0).result.operand scheme)] := by
  obtain ⟨front, last, _, hcomputes, hbody⟩ := conditional_eq scheme raised target c
  rw [hbody, List.flatMap_append, List.flatMap_cons, OpStep.flatMap_computes_map,
    OpStep.computes_opening, hcomputes, List.append_assoc]
  rfl

/-- **The op-steps of a compound condition.**  The outermost operation shares its op-step with the
opening of the guard; then its value is gated and branched on. -/
lemma conditional_of_node (scheme : RegisterScheme ρ) (raised : List String) (target : StateId)
    {c : Expr} (hc : c.isLeaf = false) :
    ∃ (inner : List (Compute ρ)) (outer : Compute ρ),
      (c.reduce scheme (scheme.read raised) 0).computes = inner ++ [outer]
        ∧ conditional scheme raised target c
            = inner.map (fun x => [.compute x])
              ++ [[.compute outer, .openGuard], [.compute (gate scheme (.name outer.out))],
                  [.branch outer.out target]] := by
  obtain ⟨inner, last, hlast, hcomputes, hbody⟩ := conditional_eq scheme raised target c
  rw [hc] at hlast
  cases last with
  | none => cases hlast
  | some outer =>
      refine ⟨inner, outer, hcomputes, ?_⟩
      rw [hbody, Expr.result_reduce scheme _ hc, Expr.out_of_computes_eq hcomputes]
      rfl

/-- The gate of any value is marked as it should be. -/
lemma wellMarked_gate (scheme : RegisterScheme ρ) (value : Operand ρ) :
    (gate scheme value).WellMarked :=
  Compute.wellMarked_of_mul rfl rfl

/-- **Every compute of a transition is marked as it should be.** -/
lemma wellMarked_body {scheme : RegisterScheme ρ} {raised : List String} {t : Transition}
    {body : Body ρ} (h : t.body scheme raised = .ok body) :
    ∀ x ∈ body.flatMap OpStep.computes, x.WellMarked := by
  intro x hx
  rcases body_eq_ok_iff.mp h with ⟨_, rfl⟩ | ⟨c, _, _, rfl⟩
  · cases hx
  · rw [computes_conditional, List.mem_append, List.mem_singleton] at hx
    rcases hx with hx | rfl
    · obtain ⟨k, hk⟩ := List.mem_iff_getElem?.mp hx
      obtain ⟨op, _, hop⟩ := forall₂_getElem?_right (c.carriesOut_reduce scheme _ 0) hk
      exact hop.wellMarked
    · exact wellMarked_gate scheme _

end Transition

/-- The compute of a statement is marked as it should be. -/
lemma Statement.wellMarked_body {scheme : RegisterScheme ρ} {raised : List String} {s : Statement}
    {body : Body ρ} (h : s.body scheme raised = .ok body) :
    ∀ x ∈ body.flatMap OpStep.computes, x.WellMarked := by
  obtain ⟨_, o, _, _, rfl⟩ := Statement.body_eq_ok_iff.mp h
  intro x hx
  obtain rfl := List.mem_singleton.mp hx
  exact Compute.wellMarked_of_mul rfl rfl

/-- **Every compute of a program is marked as it should be.** -/
theorem Lowered.wellMarked {scheme : RegisterScheme ρ} {m : Machine τ} {p : Program ρ τ}
    (h : Lowered scheme m p) {q : ProgramState ρ} (hq : q ∈ p.states) {b : Block ρ}
    (hb : b ∈ q.blocks) : ∀ x ∈ b.computes, x.WellMarked := by
  obtain ⟨i, hi⟩ := List.mem_iff_getElem?.mp hq
  obtain ⟨j, hj⟩ := List.mem_iff_getElem?.mp hb
  obtain ⟨s, hs⟩ := h.exists_source hi
  obtain ⟨body, hsteps, hbody⟩ := h.block_cases hs hi hj
  rw [Block.computes_of_relabel hsteps]
  rcases hbody with ⟨st, _, hcompiled⟩ | ⟨k, t, _, _, hcompiled⟩
  · exact Statement.wellMarked_body hcompiled
  · exact Transition.wellMarked_body hcompiled

/-! ## Whole conditions -/

lemma Expr.any_isNameless_eq_false {c : Expr} (h : .name "" ∉ c.leaves) :
    c.leaves.any Operand.isNameless = false := by
  rw [List.any_eq_false]
  intro o ho
  cases o with
  | literal v => simp [Operand.isNameless]
  | name v =>
      simp only [Operand.isNameless, beq_iff_eq]
      rintro rfl
      exact h ho

/-- **A compound condition is computed in post-order.**  Take a transition whose condition has
operations and names all its variables.  Its body computes once for each operation, operands first,
and once more to multiply the value of the outermost with the guard.  The outermost operation is the
only compute with something else in its op-step, which is the opening of the guard behind it.

A compute is marked as not taking its count from the input exactly when it is a comparison whose
right operand is written as a literal, and otherwise it is not marked at all.  In a program the mark
is on exactly those computes that compare with a literal. -/
theorem Machine.lower_postorder (scheme : RegisterScheme ρ) :
    (∀ (s : State) (t : Transition) (c : Expr), t.condition = some c → 1 ≤ c.operations →
      .name "" ∉ c.leaves →
      ∃ (body : Body ρ) (inner : List (Compute ρ)) (outer gate : Compute ρ),
        t.body scheme (s.statements.map Statement.out) = .ok body
        ∧ body = inner.map (fun x => [.compute x])
            ++ [[.compute outer, .openGuard], [.compute gate], [.branch outer.out t.target]]
        ∧ body.flatMap OpStep.computes = inner ++ [outer] ++ [gate]
        ∧ (inner ++ [outer]).length = c.operations
        ∧ (inner ++ [outer]).map Compute.operator = c.postorder.map Expr.Operation.operator
        ∧ gate.left = .name outer.out ∧ gate.right = .name scheme.guard
        ∧ gate.operator = .mul ∧ gate.countFromInput = none ∧ gate.out = outer.out
        ∧ ∀ (k : Nat) (op : Expr.Operation), c.postorder[k]? = some op →
            ∃ x, (inner ++ [outer])[k]? = some x
              ∧ (x.countFromInput = some false ↔
                  op.operator ∈ [.eq, .ne, .lt, .le, .gt, .ge]
                    ∧ ∃ v, op.right = .leaf (.literal v))
              ∧ (x.countFromInput = none ↔
                  ¬ (op.operator ∈ [.eq, .ne, .lt, .le, .gt, .ge]
                    ∧ ∃ v, op.right = .leaf (.literal v))))
    ∧ ∀ (m : Machine τ) (p : Program ρ τ), m.lower scheme = .ok p →
        ∀ q ∈ p.states, ∀ b ∈ q.blocks, ∀ x ∈ b.computes,
          (x.countFromInput = some false ↔
            x.operator ∈ [.eq, .ne, .lt, .le, .gt, .ge] ∧ x.right.isLiteral = true)
          ∧ x.countFromInput ≠ some true := by
  constructor
  · intro s t c hcond hops hnames
    have hc := c.isLeaf_eq_false_iff.mpr hops
    obtain ⟨inner, outer, hcomputes, hbody⟩ :=
      Transition.conditional_of_node scheme (s.statements.map Statement.out) t.target hc
    have hcarries := c.carriesOut_reduce scheme (scheme.read (s.statements.map Statement.out)) 0
    have hall := Transition.computes_conditional scheme (s.statements.map Statement.out) t.target c
    have hout := Expr.out_of_computes_eq hcomputes
    rw [Expr.result_reduce scheme _ hc] at hall
    rw [hcomputes] at hcarries hall
    refine ⟨_, inner, outer, Transition.gate scheme (.name outer.out), ?_, hbody, ?_, ?_, ?_,
      rfl, rfl, rfl, rfl, hout.symm, ?_⟩
    · exact Transition.body_eq_ok_iff.mpr
        (Or.inr ⟨c, hcond, Expr.any_isNameless_eq_false hnames, rfl⟩)
    · rw [hall, hout]
      rfl
    · rw [← hcarries.length_eq, Expr.length_postorder]
    · rw [← hcomputes, Expr.operators_reduce, Expr.map_operator_postorder]
    · intro k op hop
      obtain ⟨x, hx, hcarry⟩ := forall₂_getElem? hcarries hop
      refine ⟨x, hx, ?_, ?_⟩
      · rw [hcarry.wellMarked.eq_some_false_iff, Operator.isComparison_iff, hcarry.operator_eq,
          hcarry.isLiteral_right]
      · rw [hcarry.wellMarked.eq_none_iff, Operator.isComparison_iff, hcarry.operator_eq,
          hcarry.isLiteral_right]
  · intro m p hlower q hq b hb x hx
    have hmarked := (lower_eq_ok hlower).wellMarked hq hb x hx
    rw [hmarked.eq_some_false_iff, Operator.isComparison_iff]
    exact ⟨Iff.rfl, hmarked.ne_some_true⟩

/-- A comparison with a literal and one with a variable, both under operations that are none. -/
def Expr.nested : Expr :=
  .node
    (.node (.node (.leaf (.name "X")) .ge (.leaf (.literal 3))) .and
      (.node (.leaf (.name "Y")) .lt (.leaf (.name "X"))))
    .mul (.leaf (.literal 1))

/-- A state that goes back to itself under a nested condition. -/
def State.nested : State :=
  { id := .symbolic "nested"
    statements := [.increment "X" (.leaf (.literal 2))]
    transitions := [{ condition := some .nested, target := .symbolic "nested" }] }

theorem Machine.lower_postorder_nested :
    (∃ (body : Body Register) (front : List (Compute Register)) (gate : Compute Register),
      Transition.body RegisterScheme.free ["X"]
          { condition := some .nested, target := .symbolic "nested" } = .ok body
      ∧ body.flatMap OpStep.computes = front ++ [gate]
      ∧ front.map Compute.operator = [.ge, .lt, .and, .mul]
      ∧ (∃ x, front[0]? = some x ∧ x.countFromInput = some false)
      ∧ ∃ x, front[1]? = some x ∧ x.countFromInput = none)
    ∧ ∃ p : Program Register Unit,
        Machine.lower RegisterScheme.free { timers := [], states := [State.nested] } = .ok p
        ∧ ∀ q ∈ p.states, ∀ b ∈ q.blocks, ∀ x ∈ b.computes, x.countFromInput ≠ some true := by
  obtain ⟨hbodies, hprograms⟩ := Machine.lower_postorder (τ := Unit) RegisterScheme.free
  constructor
  · obtain ⟨body, inner, outer, gate, hbody, _, hcomputes, _, hoperators, _, _, _, _, _, hmarks⟩ :=
      hbodies State.nested { condition := some .nested, target := .symbolic "nested" } .nested rfl
        (by decide) (by decide)
    obtain ⟨x, hx, hmarked, _⟩ := hmarks 0 _ rfl
    obtain ⟨y, hy, _, hunmarked⟩ := hmarks 1 _ rfl
    refine ⟨body, inner ++ [outer], gate, hbody, hcomputes, hoperators, ?_, ?_⟩
    · exact ⟨x, hx, hmarked.mpr ⟨by decide, 3, rfl⟩⟩
    · exact ⟨y, hy, hunmarked.mpr fun h => by obtain ⟨_, v, hv⟩ := h; cases hv⟩
  · have hlower : (fun p => p.states.length)
        <$> Machine.lower RegisterScheme.free
          { timers := ([] : List Unit), states := [State.nested] } = .ok 1 := by cbv
    obtain ⟨p, hp, _⟩ := map_eq_ok_iff.mp hlower
    exact ⟨p, hp, fun q hq b hb x hx => (hprograms _ p hp q hq b hb x hx).2⟩

end Microstep
