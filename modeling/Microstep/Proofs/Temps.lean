import Microstep.Proofs.Reduction
import Microstep.Proofs.Registers

/-!
# Temps are taken over, never taken away

An operation writes its value into the temp of one of its operands, so temps are overwritten all the
time while others still hold values that are read later.  This is safe whatever temps are in use
when an expression is reduced.  With `k` temps in use, the reduction writes temps from `k` up to the
number issued in the end (`Expr.out_reduce`), and the value of an expression that is not a single
operand ends up in the first of them (`Expr.result_reduce`).  The right operand of an operation is
reduced with the temps of the left one in use, so it writes above them (`Expr.out_ne_operand`).

This is about every operation inside an expression, not only the outermost one.  `Expr.Visits` says
which parts of an expression are reduced on the way, and with how many temps in use; their computes
stand side by side among those of the expression (`Expr.Visits.computes_infix`).
-/

namespace Microstep

variable {ρ : Type}

namespace Expr

section

variable (scheme : RegisterScheme ρ) (read : String → ρ)

/-- The computes of an operation, with those of its operands. -/
lemma computes_reduce_node (l : Expr) (op : Operator) (r : Expr) (k : Nat) :
    ((Expr.node l op r).reduce scheme read k).computes
      = (l.reduce scheme read k).computes
        ++ (r.reduce scheme read (l.reduce scheme read k).issued).computes
        ++ [(Reduction.combine scheme op (l.reduce scheme read k)
              (r.reduce scheme read (l.reduce scheme read k).issued)).compute] := rfl

/-- What an operation becomes, in terms of what its operands have become. -/
lemma result_reduce_node (l : Expr) (op : Operator) (r : Expr) (k : Nat) :
    ((Expr.node l op r).reduce scheme read k).result
      = .temp (Reduction.target (l.reduce scheme read k).result
          (r.reduce scheme read (l.reduce scheme read k).issued).result
          (r.reduce scheme read (l.reduce scheme read k).issued).issued).1 := rfl

/-- **The value of an operation ends up in the first temp that was not in use.**  An operand that
has a temp has that one, and if there is no such operand it is the fresh one. -/
theorem result_reduce {e : Expr} (h : e.isLeaf = false) (k : Nat) :
    (e.reduce scheme read k).result = .temp k := by
  induction e with
  | leaf o => cases h
  | node l op r ihl ihr =>
      rw [result_reduce_node]
      cases l with
      | node l' op' r' =>
          rw [ihl rfl]
          rfl
      | leaf o =>
          -- a single operand takes no temp, so the right one starts with the same
          have hissued : ((Expr.leaf o).reduce scheme read k).issued = k := rfl
          rw [hissued]
          cases r with
          | node l' op' r' =>
              rw [ihr rfl]
              rfl
          | leaf o' => rfl

/-- **Only temps that were not in use are written.** -/
theorem out_reduce :
    ∀ (e : Expr) (k : Nat), ∀ c ∈ (e.reduce scheme read k).computes,
      ∃ n, k ≤ n ∧ n < (e.reduce scheme read k).issued ∧ c.out = scheme.temp n
  | .leaf _, _, c, hc => by cases hc
  | .node l op r, k, c, hc => by
      obtain ⟨hl, hln⟩ := l.reduce_bounds scheme read k
      obtain ⟨hr, hrn⟩ := r.reduce_bounds scheme read (l.reduce scheme read k).issued
      obtain ⟨hle, hlt, hissued⟩ := Reduction.target_bounds hl hr hln hrn
      rw [computes_reduce_node, List.mem_append, List.mem_append, List.mem_singleton] at hc
      rcases hc with (hc | hc) | rfl
      · obtain ⟨n, hn, hn', hout⟩ := out_reduce l k c hc
        exact ⟨n, hn, lt_of_lt_of_le hn' (le_trans hr hissued), hout⟩
      · obtain ⟨n, hn, hn', hout⟩ := out_reduce r _ c hc
        exact ⟨n, le_trans hl hn, lt_of_lt_of_le hn' hissued, hout⟩
      · exact ⟨_, hle, hlt, rfl⟩

/-- **What is reduced later does not write where the value of an expression is.** -/
theorem out_ne_operand {scheme : RegisterScheme ρ} {read : String → ρ}
    (htemp : Function.Injective scheme.temp) {e : Expr} {k : Nat}
    (h : ∀ v ∈ e.names, ∀ n, k ≤ n → read v ≠ scheme.temp n) (later : Expr) :
    ∀ c ∈ (later.reduce scheme read (e.reduce scheme read k).issued).computes,
      .name c.out ≠ (e.reduce scheme read k).result.operand scheme := by
  intro c hc heq
  obtain ⟨n, hn, _, hout⟩ := later.out_reduce scheme read _ c hc
  rw [hout] at heq
  cases e with
  | leaf o =>
      cases o with
      | literal x => cases heq
      | name v =>
          have hv : v ∈ (Expr.leaf (.name v)).names := by simp [names, leaves, Operand.name?]
          exact h v hv n hn (Operand.name.inj heq).symm
  | node l op r =>
      have hlt := (reduce_bounds scheme read (.node l op r) k).2 _ rfl
      have hsame := htemp (Operand.name.inj heq)
      omega

/-! ## The parts of an expression -/

/-- **While `e` is reduced with `k` temps in use, `part` is reduced with `k'` in use.** -/
inductive Visits : Expr → Nat → Expr → Nat → Prop
  | self (e : Expr) (k : Nat) : Visits e k e k
  | left {l r part : Expr} {op : Operator} {k k' : Nat} :
      Visits l k part k' → Visits (.node l op r) k part k'
  | right {l r part : Expr} {op : Operator} {k k' : Nat} :
      Visits r (l.reduce scheme read k).issued part k' → Visits (.node l op r) k part k'

end

namespace Visits

variable {scheme : RegisterScheme ρ} {read : String → ρ} {e part : Expr} {k k' : Nat}

/-- The temps in use do not get fewer. -/
lemma le (h : Visits scheme read e k part k') : k ≤ k' := by
  induction h with
  | self e k => exact le_refl k
  | left _ ih => exact ih
  | @right l r part op k k' _ ih => exact le_trans (l.reduce_bounds scheme read k).1 ih

lemma names_subset (h : Visits scheme read e k part k') : part.names ⊆ e.names := by
  induction h with
  | self e k => exact List.Subset.refl _
  | left _ ih =>
      rw [names_node]
      exact List.subset_append_of_subset_left _ ih
  | right _ ih =>
      rw [names_node]
      exact List.subset_append_of_subset_right _ ih

/-- **The computes of a part stand side by side** among those of the expression. -/
theorem computes_infix (h : Visits scheme read e k part k') :
    (part.reduce scheme read k').computes <:+: (e.reduce scheme read k).computes := by
  induction h with
  | self e k => exact List.infix_rfl
  | left _ ih =>
      rw [computes_reduce_node, List.append_assoc]
      exact ih.trans (List.prefix_append _ _).isInfix
  | right _ ih =>
      rw [computes_reduce_node]
      exact ih.trans (List.infix_append _ _ _)

end Visits

/-! ## What a reduction leaves behind -/

/-- **A reduction is right with any number of temps in use.**  Take any stem for temps, any map from
variables to the registers they are read from, any number `k` of temps in use, any registers and any
reading of the operators.  If no operand of an expression is read from a temp that is not in use
yet, then after the computes of the expression

* its value, with variables read before, is where the reduction says it is: in a temp that was not
  in use, or in the operand itself if the expression is a single one;
* no register has changed but temps from `k` up to the number issued in the end; in particular no
  temp that was in use.

And for every operation inside the expression, the computes of its operands stand side by side and
then its own, which reads the left operand from where the first of them have put it and the others
do not write. -/
theorem reduce_evaluates (n : Naming) (read : String → String) (e : Expr) (k : Nat)
    (h : ∀ o ∈ e.leaves, ∀ j, k ≤ j → o.map read ≠ .name (n.temp j))
    (ops : Operator → Int → Int → Int) (store : String → Int) :
    let reduction := e.reduce n.scheme read k
    let store' := Compute.execAll ops store reduction.computes
    (reduction.result.operand n.scheme).value store' = e.eval ops (fun v => store (read v))
    ∧ (∀ o, e = .leaf o → reduction.result = .leaf (o.map read))
    ∧ (e.isLeaf = false → ∃ j, k ≤ j ∧ j < reduction.issued ∧ reduction.result = .temp j)
    ∧ k ≤ reduction.issued
    ∧ (∀ x, (∀ j, k ≤ j → j < reduction.issued → x ≠ n.temp j) → store' x = store x)
    ∧ (∀ j < k, store' (n.temp j) = store (n.temp j))
    ∧ ∀ (l r : Expr) (op : Operator) (k' : Nat),
        Visits n.scheme read e k (.node l op r) k' →
          let left := l.reduce n.scheme read k'
          let right := r.reduce n.scheme read left.issued
          ∃ c : Compute String,
            left.computes ++ right.computes ++ [c] <:+: reduction.computes
            ∧ c.left = left.result.operand n.scheme
            ∧ ∀ c' ∈ right.computes, .name c'.out ≠ left.result.operand n.scheme := by
  intro reduction store'
  have htemp : Function.Injective n.scheme.temp := n.temp_injective
  have hnames : ∀ v ∈ e.names, ∀ j, k ≤ j → read v ≠ n.scheme.temp j := by
    intro v hv j hj heq
    obtain ⟨o, ho, hov⟩ := List.mem_filterMap.mp hv
    cases o with
    | literal x => cases hov
    | name w =>
        cases hov
        exact h (.name v) ho j hj (congrArg Operand.name heq)
  obtain ⟨hissued, hresult⟩ := e.reduce_bounds n.scheme read k
  refine ⟨value_reduce htemp hnames store, ?_, ?_, hissued, ?_, ?_, ?_⟩
  · rintro o rfl
    rfl
  · intro hleaf
    cases e with
    | leaf o => cases hleaf
    | node l op r =>
        obtain ⟨hle, hlt⟩ := hresult _ rfl
        exact ⟨_, hle, hlt, rfl⟩
  · intro x hx
    exact execAll_reduce_of_ne n.scheme read hx store
  · intro j hj
    refine execAll_reduce_of_ne n.scheme read (fun i hi _ heq => ?_) store
    have hij := htemp heq
    omega
  · intro l r op k' hvisits left right
    refine ⟨_, hvisits.computes_infix, rfl, ?_⟩
    refine out_ne_operand htemp (fun v hv j hj => ?_) r
    refine hnames v (hvisits.names_subset ?_) j (le_trans hvisits.le hj)
    rw [names_node]
    exact List.mem_append_left _ hv

/-- A product of two sums, one of which has a variable that is called like a temp. -/
def lookalike : Expr :=
  .node (.node (.leaf (.name "A")) .add (.leaf (.name "B"))) .mul
    (.node (.leaf (.name "INT_A")) .add (.leaf (.literal 1)))

theorem reduce_evaluates_lookalike :
    let read := fun v => if v = "A" then "signal_A" else v
    let ops := fun (op : Operator) (x y : Int) => if op = .add then x + y else x * y
    let store := fun r => if r = "signal_A" then 2 else if r = "B" then 3 else 4
    let reduction := lookalike.reduce Naming.standard.scheme read 1
    (∀ o ∈ lookalike.leaves, ∀ j, 1 ≤ j → o.map read ≠ .name (Naming.standard.temp j))
    ∧ (reduction.result.operand Naming.standard.scheme).value
        (Compute.execAll ops store reduction.computes) = 25
    ∧ Compute.execAll ops store reduction.computes "INT_A" = 4 := by
  intro read ops store reduction
  have hzero : Naming.standard.temp 0 = "INT_A" := by decide +kernel
  have hleaves : ∀ o ∈ lookalike.leaves, ∀ j, 1 ≤ j →
      o.map read ≠ .name (Naming.standard.temp j) := by
    intro o ho j hj heq
    have hstem := Naming.standard.startsWith_temp j
    have hcases : o = .name "A" ∨ o = .name "B" ∨ o = .name "INT_A" ∨ o = .literal 1 := by
      simpa [lookalike, leaves] using ho
    rcases hcases with rfl | rfl | rfl | rfl
    · rw [← Operand.name.inj heq] at hstem
      exact absurd hstem (by decide)
    · rw [← Operand.name.inj heq] at hstem
      exact absurd hstem (by decide)
    · have hj0 := Naming.standard.temp_injective (hzero.trans (Operand.name.inj heq))
      omega
    · cases heq
  obtain ⟨hvalue, _, _, _, _, hkept, _⟩ :=
    reduce_evaluates Naming.standard read lookalike 1 hleaves ops store
  refine ⟨hleaves, hvalue.trans (by decide), ?_⟩
  have h0 := hkept 0 (by decide)
  rwa [hzero] at h0

end Expr

end Microstep
