import Microstep.Proofs.Postorder

/-!
# Temps depend on the shape of an expression

Which temps an expression is computed in can be read off its shape.  An operation takes over the
temp of an operand if it can, and a fresh one only if both operands are single ones, so as many
temps are issued as there are such innermost operations (`Expr.issued_reduce`).  The value of an
expression ends up in the first of them (`Expr.result_reduce`), hence so does that of every
operation inside it, and the temps are met one after the other without gaps
(`Expr.eraseDups_out_reduce`).

Every condition of a state starts with no temps in use.  Its value is gated into the first one,
which has the suffix `A`, and the branch is on that temp.
-/

namespace Microstep

variable {ρ τ : Type}

namespace Expr

/-! ## Innermost operations and shapes -/

/-- Whether both operands of an operation are single ones. -/
def Operation.isInnermost (op : Operation) : Bool := op.left.isLeaf && op.right.isLeaf

/-- How many operations of an expression have single operands on both sides. -/
def innermost (e : Expr) : Nat := e.postorder.countP Operation.isInnermost

/-- **Expressions of the same shape**: they differ in nothing but their operands and operators. -/
inductive SameShape : Expr → Expr → Prop
  | leaf (o o' : Operand String) : SameShape (.leaf o) (.leaf o')
  | node {l l' r r' : Expr} (op op' : Operator) :
      SameShape l l' → SameShape r r' → SameShape (.node l op r) (.node l' op' r')

lemma innermost_node (l : Expr) (op : Operator) (r : Expr) :
    (Expr.node l op r).innermost
      = l.innermost + r.innermost + if l.isLeaf && r.isLeaf then 1 else 0 := by
  simp [innermost, postorder, Operation.isInnermost, List.countP_cons, Nat.add_assoc]

lemma SameShape.isLeaf_eq {e e' : Expr} (h : e.SameShape e') : e.isLeaf = e'.isLeaf := by
  cases h <;> rfl

lemma SameShape.innermost_eq {e e' : Expr} (h : e.SameShape e') : e.innermost = e'.innermost := by
  induction h with
  | leaf o o' => rfl
  | node op op' hl hr ihl ihr =>
      rw [innermost_node, innermost_node, ihl, ihr, hl.isLeaf_eq, hr.isLeaf_eq]

/-! ## Temps of a reduction -/

section

variable (scheme : RegisterScheme ρ) (read : String → ρ)

lemma issued_reduce_node (l : Expr) (op : Operator) (r : Expr) (k : Nat) :
    ((Expr.node l op r).reduce scheme read k).issued
      = (Reduction.target (l.reduce scheme read k).result
          (r.reduce scheme read (l.reduce scheme read k).issued).result
          (r.reduce scheme read (l.reduce scheme read k).issued).issued).2 := rfl

/-- **As many temps are issued as there are innermost operations.** -/
theorem issued_reduce (e : Expr) (k : Nat) :
    (e.reduce scheme read k).issued = k + e.innermost := by
  induction e generalizing k with
  | leaf o => rfl
  | node l op r ihl ihr =>
      rw [issued_reduce_node, ihl, ihr, innermost_node, Nat.add_assoc]
      cases l with
      | node l' op' r' =>
          rw [result_reduce scheme read rfl]
          rfl
      | leaf o =>
          cases r with
          | node l' op' r' =>
              rw [result_reduce scheme read (e := .node l' op' r') rfl]
              rfl
          | leaf o' => rfl

/-- The registers that an operation is computed in: those of its operands, then the first temp. -/
lemma map_out_reduce_node (l : Expr) (op : Operator) (r : Expr) (k : Nat) :
    ((Expr.node l op r).reduce scheme read k).computes.map Compute.out
      = (l.reduce scheme read k).computes.map Compute.out
        ++ (r.reduce scheme read (k + l.innermost)).computes.map Compute.out
        ++ [scheme.temp k] := by
  have hout := out_of_computes_eq (computes_reduce_node scheme read l op r k)
  rw [computes_reduce_node, List.map_append, List.map_append, List.map_singleton, hout,
    issued_reduce]

/-- An operation is computed in the first temp. -/
lemma temp_mem_out_reduce {e : Expr} (h : e.isLeaf = false) (k : Nat) :
    scheme.temp k ∈ (e.reduce scheme read k).computes.map Compute.out := by
  cases e with
  | leaf o => cases h
  | node l op r =>
      rw [map_out_reduce_node]
      exact List.mem_append_right _ (List.mem_singleton_self _)

end

/-- **Only the shape of an expression decides which registers it is computed in.** -/
theorem SameShape.map_out_reduce {e e' : Expr} (h : e.SameShape e') (scheme : RegisterScheme ρ)
    (read read' : String → ρ) (k : Nat) :
    (e'.reduce scheme read' k).computes.map Compute.out
      = (e.reduce scheme read k).computes.map Compute.out := by
  induction h generalizing k with
  | leaf o o' => rfl
  | node op op' hl hr ihl ihr =>
      rw [map_out_reduce_node, map_out_reduce_node, ihl, hl.innermost_eq, ihr]

/-- What is computed with the temps of an expression in use is computed in others. -/
lemma out_reduce_disjoint {scheme : RegisterScheme ρ} (htemp : Function.Injective scheme.temp)
    (read : String → ρ) (e later : Expr) (k : Nat) :
    ∀ x ∈ (later.reduce scheme read (k + e.innermost)).computes.map Compute.out,
      x ∉ (e.reduce scheme read k).computes.map Compute.out := by
  intro x hlater hearlier
  obtain ⟨c, hc, rfl⟩ := List.mem_map.mp hlater
  obtain ⟨c', hc', heq⟩ := List.mem_map.mp hearlier
  obtain ⟨i, hi, _, hout⟩ := later.out_reduce scheme read _ c hc
  obtain ⟨j, _, hj, hout'⟩ := e.out_reduce scheme read k c' hc'
  rw [issued_reduce] at hj
  have hij : i = j := htemp (hout.symm.trans (heq.symm.trans hout'))
  omega

/-- An operation is computed in a temp that an operand has been computed in, unless both operands
are single ones. -/
lemma temp_mem_out_operands (scheme : RegisterScheme ρ) (read : String → ρ) {l r : Expr}
    (h : (l.isLeaf && r.isLeaf) = false) (k : Nat) :
    scheme.temp k ∈ (l.reduce scheme read k).computes.map Compute.out
      ++ (r.reduce scheme read (k + l.innermost)).computes.map Compute.out := by
  cases l with
  | node l' op' r' => exact List.mem_append_left _ (temp_mem_out_reduce scheme read rfl k)
  | leaf o =>
      have hr : r.isLeaf = false := h
      exact List.mem_append_right _ (temp_mem_out_reduce scheme read hr k)

/-- **Temps are met one after the other, without gaps.** -/
theorem eraseDups_out_reduce [DecidableEq ρ] {scheme : RegisterScheme ρ}
    (htemp : Function.Injective scheme.temp) (read : String → ρ) (e : Expr) (k : Nat) :
    ((e.reduce scheme read k).computes.map Compute.out).eraseDups
      = (List.range' k e.innermost).map scheme.temp := by
  induction e generalizing k with
  | leaf o => rfl
  | node l op r ihl ihr =>
      have hkept : ((r.reduce scheme read (k + l.innermost)).computes.map Compute.out).removeAll
          ((l.reduce scheme read k).computes.map Compute.out)
            = (r.reduce scheme read (k + l.innermost)).computes.map Compute.out := by
        rw [List.removeAll, List.filter_eq_self]
        simpa using out_reduce_disjoint htemp read l r k
      rw [map_out_reduce_node, List.eraseDups_append, List.eraseDups_append, hkept, ihl, ihr,
        ← List.map_append, List.range'_append_1, innermost_node]
      cases hboth : l.isLeaf && r.isLeaf with
      | false =>
          have hgone : [scheme.temp k].removeAll
              ((l.reduce scheme read k).computes.map Compute.out
                ++ (r.reduce scheme read (k + l.innermost)).computes.map Compute.out) = [] := by
            rw [List.removeAll, List.filter_eq_nil_iff]
            intro x hx
            rw [List.mem_singleton.mp hx,
              List.elem_eq_true_of_mem (temp_mem_out_operands scheme read hboth k)]
            decide
          rw [hgone]
          simp
      | true =>
          -- nothing has been computed yet
          cases l with
          | node l' op' r' => cases hboth
          | leaf o =>
              cases r with
              | node l' op' r' => cases hboth
              | leaf o' => rfl

end Expr

/-! ## Conditions -/

/-- **A condition is gated into the first temp and branched on**, whatever its shape. -/
lemma Transition.conditional_ends (scheme : RegisterScheme ρ) (raised : List String)
    (target : StateId) (c : Expr) :
    ∃ front : Body ρ,
      conditional scheme raised target c
        = front
          ++ [[.compute
                (gate scheme ((c.reduce scheme (scheme.read raised) 0).result.operand scheme))],
              [.branch (scheme.temp 0) target]] := by
  obtain ⟨front, last, _, _, hbody⟩ := conditional_eq scheme raised target c
  refine ⟨front.map (fun c => [.compute c]) ++ [last.toList.map .compute ++ [.openGuard]], ?_⟩
  rw [hbody, List.append_assoc]
  rfl

lemma Suffix.ofNat_zero : Suffix.ofNat 0 = "A" := by
  rw [Suffix.ofNat, letters_of_lt (by decide)]
  rfl

/-- **Temps are allocated by shape.**  Take an expression with an operation in it, any registers
that its variables are read from and any number `k` of temps in use.

* Its value ends up in the temp `k`, and as many temps are issued as it has operations between
  single operands.
* The registers it is computed in are, in the order in which they are met first, the temps from `k`
  on, without gaps; and expressions of the same shape are computed in the same ones.

So in a lowered machine every state has its place, and every condition is gated there into the temp
with the suffix `A`, and branched on. -/
theorem Machine.lower_allocates (n : Naming) :
    (∀ (e : Expr) (read : String → String) (k : Nat), 1 ≤ e.operations →
      let reduction := e.reduce n.scheme read k
      reduction.result = .temp k
      ∧ reduction.result.operand n.scheme = .name (n.tempStem ++ Suffix.ofNat k)
      ∧ reduction.issued = k + e.postorder.countP (fun op => op.left.isLeaf && op.right.isLeaf)
      ∧ (reduction.computes.map Compute.out).eraseDups
          = (List.range' k (reduction.issued - k)).map (fun i => n.tempStem ++ Suffix.ofNat i)
      ∧ ∀ (e' : Expr) (read' : String → String), e.SameShape e' →
          (e'.reduce n.scheme read' k).computes.map Compute.out
            = reduction.computes.map Compute.out)
    ∧ ∀ (m : Machine τ) (p : Program String τ), m.lower n.scheme = .ok p →
        ∀ (i : Nat) (s : State), m.states[i]? = some s →
          ∃ q : ProgramState String, p.states[i]? = some q ∧
          ∀ (k : Nat) (t : Transition) (c : Expr), s.transitions[k]? = some t →
            t.condition = some c →
            ∃ (b : Block String) (front : List (OpStep String Address)) (gate : Compute String)
              (a : Address), q.blocks[s.statements.length + k]? = some b
              ∧ b.steps = front ++ [[.compute gate], [.branch (n.tempStem ++ "A") a]]
              ∧ gate.operator = .mul ∧ gate.right = .name n.guard
              ∧ gate.out = n.tempStem ++ "A" := by
  constructor
  · intro e read k hops reduction
    have hleaf := e.isLeaf_eq_false_iff.mpr hops
    have hresult : reduction.result = .temp k := e.result_reduce n.scheme read hleaf k
    have hissued : reduction.issued = k + e.innermost := e.issued_reduce n.scheme read k
    refine ⟨hresult, by rw [hresult]; rfl, hissued, ?_, ?_⟩
    · rw [hissued, Nat.add_sub_cancel_left]
      exact e.eraseDups_out_reduce n.temp_injective read k
    · intro e' read' hshape
      exact hshape.map_out_reduce n.scheme read read' k
  · intro m p hlower i s hs
    have hlow := lower_eq_ok hlower
    obtain ⟨q, hq⟩ := hlow.exists_placed hs
    refine ⟨q, hq, fun k t c ht hcond => ?_⟩
    obtain ⟨b, body, hb, hbody, hsteps⟩ := hlow.exists_block_transition hs hq ht
    rcases Transition.body_eq_ok_iff.mp hbody with ⟨hnone, _⟩ | ⟨c', hsome, _, rfl⟩
    · rw [hnone] at hcond
      cases hcond
    · rw [hcond] at hsome
      cases hsome
      obtain ⟨front, hends⟩ :=
        Transition.conditional_ends n.scheme (s.statements.map Statement.out) t.target c
      have hzero : n.scheme.temp 0 = n.tempStem ++ "A" := by
        show n.tempStem ++ Suffix.ofNat 0 = _
        rw [Suffix.ofNat_zero]
      rw [hends, List.map_append, hzero] at hsteps
      exact ⟨b, _, Transition.gate n.scheme _, _, hb, hsteps, rfl, rfl, hzero⟩

/-- A comparison of a product of two sums. -/
def Expr.balanced : Expr :=
  .node
    (.node (.node (.leaf (.name "A")) .add (.leaf (.name "B"))) .mul
      (.node (.leaf (.name "C")) .add (.leaf (.literal 1))))
    .gt (.leaf (.name "INT_A"))

/-- A state that goes back to itself under this comparison. -/
def State.balanced : State :=
  { id := .symbolic "balanced"
    statements := []
    transitions := [{ condition := some .balanced, target := .symbolic "balanced" }] }

theorem Machine.lower_allocates_balanced :
    let reduction := Expr.balanced.reduce Naming.standard.scheme (fun v => v) 2
    reduction.result.operand Naming.standard.scheme = .name "INT_C"
    ∧ reduction.issued = 4
    ∧ (reduction.computes.map Compute.out).eraseDups = ["INT_C", "INT_D"]
    ∧ ∃ (p : Program String Unit) (q : ProgramState String) (b : Block String)
        (front : List (OpStep String Address)) (gate : Compute String) (a : Address),
        Machine.lower Naming.standard.scheme { timers := [], states := [State.balanced] } = .ok p
        ∧ p.states[0]? = some q ∧ q.blocks[0]? = some b
        ∧ b.steps = front ++ [[.compute gate], [.branch "INT_A" a]] ∧ gate.out = "INT_A" := by
  obtain ⟨hreductions, hprograms⟩ := Machine.lower_allocates (τ := Unit) Naming.standard
  obtain ⟨_, hresult, hissued, houts, _⟩ :=
    hreductions Expr.balanced (fun v => v) 2 (by decide)
  refine ⟨hresult.trans (by decide +kernel), hissued, houts.trans (by decide +kernel), ?_⟩
  have hlower : (fun p => p.states.length)
      <$> Machine.lower Naming.standard.scheme
        { timers := ([] : List Unit), states := [State.balanced] } = .ok 1 := by cbv
  obtain ⟨p, hp, _⟩ := map_eq_ok_iff.mp hlower
  obtain ⟨q, hq, htransitions⟩ := hprograms _ p hp 0 _ rfl
  obtain ⟨b, front, gate, a, hb, hsteps, _, _, hout⟩ := htransitions 0 _ _ rfl rfl
  exact ⟨p, q, b, front, gate, a, hp, hq, hb, hsteps, hout⟩

end Microstep
