import Microstep.Proofs.Execution

/-!
# Reduced expressions keep their values

Running the computes of an expression leaves its value where the reduction says it is, and changes
only temps that were not in use (`Expr.value_reduce`, `Expr.execAll_reduce_of_ne`).

The temps need care.  An operation takes over the temp of one of its operands, so a temp is written
more than once; what matters is that between the moment an operand is in its temp and the moment the
operation reads it, nothing else goes there.  The reduction of an expression with `k` temps in use
writes temps from `k` on only, and its value ends up in one of them (`Expr.reduce_bounds`).  The
right operand is reduced with the temps of the left one in use, so it leaves the left value alone
(`Expr.value_result_kept`).
-/

namespace Microstep

variable {ρ : Type}

/-! ## Values of expressions -/

namespace Expr

/-- The variables of an expression. -/
def names (e : Expr) : List String := e.leaves.filterMap Operand.name?

/-- **The value of an expression**, if variables have the values that `read` gives. -/
def eval (ops : Operator → Int → Int → Int) (read : String → Int) : Expr → Int
  | .leaf o => o.value read
  | .node l op r => ops op (l.eval ops read) (r.eval ops read)

lemma names_node (l : Expr) (op : Operator) (r : Expr) :
    (Expr.node l op r).names = l.names ++ r.names := by
  rw [names, leaves, List.filterMap_append]
  rfl

/-- The value depends on the variables of the expression only. -/
lemma eval_congr {ops : Operator → Int → Int → Int} {read read' : String → Int} :
    ∀ {e : Expr}, (∀ v ∈ e.names, read v = read' v) → e.eval ops read = e.eval ops read'
  | .leaf (.literal _), _ => rfl
  | .leaf (.name v), h => h v (by simp [names, leaves, Operand.name?])
  | .node l op r, h => by
      rw [names_node] at h
      rw [eval, eval, eval_congr fun v hv => h v (List.mem_append_left _ hv),
        eval_congr fun v hv => h v (List.mem_append_right _ hv)]

end Expr

/-! ## Which temps are used -/

namespace Reduction

/-- The temp of an operation is one of its operands or a fresh one. -/
lemma target_bounds {left right : Reduced ρ} {k k' k'' : Nat} (hk : k ≤ k') (hk' : k' ≤ k'')
    (hleft : ∀ n, left = .temp n → k ≤ n ∧ n < k')
    (hright : ∀ n, right = .temp n → k' ≤ n ∧ n < k'') :
    k ≤ (target left right k'').1 ∧ (target left right k'').1 < (target left right k'').2
      ∧ k'' ≤ (target left right k'').2 := by
  cases left with
  | temp n =>
      have hn := hleft n rfl
      exact ⟨hn.1, lt_of_lt_of_le hn.2 hk', le_refl k''⟩
  | leaf o =>
      cases right with
      | temp n =>
          have hn := hright n rfl
          exact ⟨le_trans hk hn.1, hn.2, le_refl k''⟩
      | leaf o' => exact ⟨le_trans hk hk', Nat.lt_succ_self k'', Nat.le_succ k''⟩

end Reduction

namespace Expr

variable (scheme : RegisterScheme ρ) (read : String → ρ)

/-- The temps of an expression come after those in use, and its value is in one of them unless it is
a single operand. -/
lemma reduce_bounds :
    ∀ (e : Expr) (k : Nat),
      k ≤ (e.reduce scheme read k).issued
        ∧ ∀ n, (e.reduce scheme read k).result = .temp n →
            k ≤ n ∧ n < (e.reduce scheme read k).issued
  | .leaf _, k => ⟨le_refl k, fun _ h => by cases h⟩
  | .node l op r, k => by
      obtain ⟨hl, hln⟩ := reduce_bounds l k
      obtain ⟨hr, hrn⟩ := reduce_bounds r (l.reduce scheme read k).issued
      obtain ⟨hle, hlt, hissued⟩ := Reduction.target_bounds hl hr hln hrn
      refine ⟨le_trans (le_trans hl hr) hissued, fun n hn => ?_⟩
      cases hn
      exact ⟨hle, hlt⟩

end Expr

/-! ## What computes leave in the registers -/

section

variable [DecidableEq ρ]

/-- What computes leave in the registers, one after the other. -/
def Compute.execAll (ops : Operator → Int → Int → Int) (store : ρ → Int)
    (computes : List (Compute ρ)) : ρ → Int :=
  computes.foldl (Compute.exec ops) store

variable {ops : Operator → Int → Int → Int}

lemma Compute.execAll_append (store : ρ → Int) (first later : List (Compute ρ)) :
    Compute.execAll ops store (first ++ later)
      = Compute.execAll ops (Compute.execAll ops store first) later :=
  List.foldl_append

lemma Compute.exec_of_ne {c : Compute ρ} {r : ρ} (h : r ≠ c.out) (store : ρ → Int) :
    c.exec ops store r = store r :=
  Function.update_of_ne h _ _

lemma Compute.exec_out (c : Compute ρ) (store : ρ → Int) :
    c.exec ops store c.out = ops c.operator (c.left.value store) (c.right.value store) :=
  Function.update_self _ _ _

/-- The computes of an operation: those of the left operand, those of the right one, and its own. -/
lemma Expr.execAll_reduce_node (scheme : RegisterScheme ρ) (read : String → ρ) (l : Expr)
    (op : Operator) (r : Expr) (k : Nat) (store : ρ → Int) :
    Compute.execAll ops store ((Expr.node l op r).reduce scheme read k).computes
      = (Reduction.combine scheme op (l.reduce scheme read k)
          (r.reduce scheme read (l.reduce scheme read k).issued)).compute.exec ops
        (Compute.execAll ops
          (Compute.execAll ops store (l.reduce scheme read k).computes)
          (r.reduce scheme read (l.reduce scheme read k).issued).computes) := by
  have hcomputes : ((Expr.node l op r).reduce scheme read k).computes
      = (l.reduce scheme read k).computes
        ++ (r.reduce scheme read (l.reduce scheme read k).issued).computes
        ++ [(Reduction.combine scheme op (l.reduce scheme read k)
              (r.reduce scheme read (l.reduce scheme read k).issued)).compute] := rfl
  rw [hcomputes, Compute.execAll_append, Compute.execAll_append]
  rfl

/-- **Only temps that were not in use are changed.** -/
theorem Expr.execAll_reduce_of_ne (scheme : RegisterScheme ρ) (read : String → ρ) {x : ρ} :
    ∀ {e : Expr} {k : Nat},
      (∀ n, k ≤ n → n < (e.reduce scheme read k).issued → x ≠ scheme.temp n) →
        ∀ store : ρ → Int,
          Compute.execAll ops store (e.reduce scheme read k).computes x = store x
  | .leaf _, _, _, _ => rfl
  | .node l op r, k, h, store => by
      obtain ⟨hl, hln⟩ := l.reduce_bounds scheme read k
      obtain ⟨hr, hrn⟩ := r.reduce_bounds scheme read (l.reduce scheme read k).issued
      obtain ⟨hle, hlt, hissued⟩ := Reduction.target_bounds hl hr hln hrn
      rw [Expr.execAll_reduce_node, Compute.exec_of_ne (h _ hle hlt),
        Expr.execAll_reduce_of_ne scheme read fun n hn hn' =>
          h n (le_trans hl hn) (lt_of_lt_of_le hn' hissued),
        Expr.execAll_reduce_of_ne scheme read fun n hn hn' =>
          h n hn (lt_of_lt_of_le hn' (le_trans hr hissued))]

/-- What is reduced later does not touch where the value of an expression is. -/
lemma Expr.value_result_kept (ops : Operator → Int → Int → Int) {scheme : RegisterScheme ρ}
    {read : String → ρ} (htemp : Function.Injective scheme.temp) {e : Expr} {k : Nat}
    (h : ∀ v ∈ e.names, ∀ n, k ≤ n → read v ≠ scheme.temp n) (later : Expr) (store : ρ → Int) :
    ((e.reduce scheme read k).result.operand scheme).value
        (Compute.execAll ops store
          (later.reduce scheme read (e.reduce scheme read k).issued).computes)
      = ((e.reduce scheme read k).result.operand scheme).value store := by
  cases e with
  | leaf o =>
      cases o with
      | literal _ => rfl
      | name v =>
          refine Expr.execAll_reduce_of_ne scheme read (fun n hn _ => ?_) store
          exact h v (by simp [Expr.names, Expr.leaves, Operand.name?]) n hn
  | node l op r =>
      have hlt := (Expr.reduce_bounds scheme read (.node l op r) k).2 _ rfl
      refine Expr.execAll_reduce_of_ne scheme read (fun n hn _ heq => ?_) store
      have := htemp heq
      omega

/-- **The value of an expression is where its reduction says it is.**  The variables must not be read
from temps that are not in use yet. -/
theorem Expr.value_reduce {scheme : RegisterScheme ρ} {read : String → ρ}
    (htemp : Function.Injective scheme.temp) :
    ∀ {e : Expr} {k : Nat}, (∀ v ∈ e.names, ∀ n, k ≤ n → read v ≠ scheme.temp n) →
      ∀ store : ρ → Int,
        ((e.reduce scheme read k).result.operand scheme).value
            (Compute.execAll ops store (e.reduce scheme read k).computes)
          = e.eval ops fun v => store (read v)
  | .leaf o, _, _, store => o.value_map read store
  | .node l op r, k, h, store => by
      have hnames : ∀ v, v ∈ l.names ∨ v ∈ r.names → ∀ n, k ≤ n → read v ≠ scheme.temp n :=
        fun v hv => h v (by rw [Expr.names_node]; exact List.mem_append.mpr hv)
      obtain ⟨hl, hln⟩ := l.reduce_bounds scheme read k
      have hleft := Expr.value_reduce htemp (fun v hv => hnames v (Or.inl hv)) store
      have hright := Expr.value_reduce htemp
        (fun v hv n hn => hnames v (Or.inr hv) n (le_trans hl hn))
        (Compute.execAll ops store (l.reduce scheme read k).computes)
      -- the right operand reads its variables as they were before the left one was computed
      have hsame : r.eval ops
          (fun v => Compute.execAll ops store (l.reduce scheme read k).computes (read v))
            = r.eval ops fun v => store (read v) :=
        Expr.eval_congr fun v hv =>
          Expr.execAll_reduce_of_ne scheme read (fun n hn _ => hnames v (Or.inr hv) n hn) store
      -- and leaves the value of the left one alone
      have hkept := Expr.value_result_kept ops htemp (fun v hv => hnames v (Or.inl hv)) r
        (Compute.execAll ops store (l.reduce scheme read k).computes)
      rw [Expr.execAll_reduce_node, Expr.eval, ← hsame, ← hright, ← hleft, ← hkept]
      exact Compute.exec_out _ _

end

end Microstep
