import Microstep.Proofs.Json.Reading
import Microstep.Proofs.Operators
import Microstep.Wire.Text

/-!
# Machines that were read

What is known of a machine because it was read from a text, whatever the text looked like: fields in
any order or as arrays, unknown members, missing lists, any spelling of a symbol.

* Every operator is the one its symbol stands for, at any depth of any condition: operators come
  from symbols only.
* Every timer has its keys in order and is nested at most 125 deep: the text may nest 127 levels,
  and the machine and its list of timers take two of them.

The first is shown reader by reader (`ensures_read`).  Expressions nest, and their reader is defined
by recursion on the levels that are left; so is the proof.
-/

namespace Microstep

open Json (Reader Shape)
open Json.Reader Json.Shape

lemma Operator.ensures_read (d : Nat) : Operator.read.Ensures d IsCanonical :=
  Ensures.map fun _ s _ => isCanonical_ofSymbol s

/-! ## Expressions -/

namespace Expr

lemma ensures_readNode {operand : Reader Expr} {d : Nat}
    (h : operand.Ensures (d - 1) fun e => Canonical e.operators) :
    (readNode operand).Ensures d fun e => Canonical e.operators := by
  refine ensures_object (P := fun
    | .left, (e : Expr) => Canonical e.operators
    | .right, (e : Expr) => Canonical e.operators
    | .operator, (op : Operator) => op.IsCanonical) ?_ ?_
  · rintro (_ | _ | _)
    · exact h
    · exact h
    · exact Operator.ensures_read _
  · intro absent slots e hslots he
    simp only [bind_eq_ok_iff, Slots.require_eq_ok_iff] at he
    obtain ⟨l, hl, r, hr, op, hop, he⟩ := he
    cases he
    have hleft : Canonical (operators l) := hslots .left l hl
    have hright : Canonical (operators r) := hslots .right r hr
    have hop : Canonical [op] := canonical_singleton.mpr (hslots .operator op hop)
    exact canonical_append.mpr ⟨canonical_append.mpr ⟨hleft, hright⟩, hop⟩

/-- **The operators of an expression that was read**, by induction on the levels. -/
lemma ensures_read (d : Nat) : Expr.read.Ensures d fun e => Canonical e.operators := by
  have hleaf : ∀ d, (Operand.read.map Expr.leaf).Ensures d fun e => Canonical e.operators :=
    fun d => Ensures.map fun _ _ _ _ hop => nomatch hop
  induction d with
  | zero => exact ensures_choice (List.forall_mem_singleton.mpr (hleaf 0))
  | succ d ih =>
      refine ensures_choice (List.forall_mem_cons.mpr ⟨hleaf (d + 1), ?_⟩)
      exact List.forall_mem_singleton.mpr (ensures_readNode fun t e he => ih t e he)

end Expr

/-! ## Statements, transitions, states -/

lemma Statement.ensures_read (d : Nat) :
    Statement.read.Ensures d fun s => Canonical s.operators := by
  refine ensures_record (P := fun
    | .left, _ => True
    | .amount, (e : Expr) => Canonical e.operators
    | .operator, (op : Operator) => op.IsCanonical
    | .out, _ => True) ?_ ?_
  · rintro (_ | _ | _ | _)
    · exact fun _ _ _ => trivial
    · exact Expr.ensures_read _
    · exact Operator.ensures_read _
    · exact fun _ _ _ => trivial
  · intro absent slots s hslots hs
    simp only [bind_eq_ok_iff, Slots.require_eq_ok_iff] at hs
    obtain ⟨left, _, amount, hamount, op, hop, out, _, hs⟩ := hs
    cases hs
    exact canonical_append.mpr
      ⟨hslots .amount amount hamount, canonical_singleton.mpr (hslots .operator op hop)⟩

lemma Transition.ensures_read (d : Nat) :
    Transition.read.Ensures d fun t => Canonical t.operators := by
  refine ensures_record (P := fun
    | .condition, (o : Option Expr) => Canonical (o.toList.flatMap Expr.operators)
    | .target, _ => True) ?_ ?_
  · rintro (_ | _)
    · intro t o ho
      have hall := ensures_optional (Expr.ensures_read _) t o ho
      exact canonical_flatMap.mpr fun c hc => hall c (Option.mem_toList.mp hc)
    · exact fun _ _ _ => trivial
  · intro absent slots t hslots ht
    simp only [bind_eq_ok_iff, Slots.require_eq_ok_iff] at ht
    obtain ⟨target, _, ht⟩ := ht
    cases ht
    exact Slots.getD_forall (hslots .condition) nofun

lemma State.ensures_read (d : Nat) : State.read.Ensures d fun s => Canonical s.operators := by
  refine ensures_record (P := fun
    | .id, _ => True
    | .statements, (statements : List Statement) =>
        Canonical (statements.flatMap Statement.operators)
    | .transitions, (transitions : List Transition) =>
        Canonical (transitions.flatMap Transition.operators)) ?_ ?_
  · rintro (_ | _ | _)
    · exact fun _ _ _ => trivial
    · exact fun t a h => canonical_flatMap.mpr (ensures_list (Statement.ensures_read _) t a h)
    · exact fun t a h => canonical_flatMap.mpr (ensures_list (Transition.ensures_read _) t a h)
  · intro absent slots s hslots hs
    simp only [bind_eq_ok_iff, Slots.require_eq_ok_iff] at hs
    obtain ⟨id, _, hs⟩ := hs
    cases hs
    exact canonical_append.mpr
      ⟨Slots.getD_forall (hslots .statements) nofun, Slots.getD_forall (hslots .transitions) nofun⟩

/-! ## Machines -/

namespace Machine

/-- **A machine that was read**, with timers that are JSON values. -/
structure IsRead (m : Machine Json) : Prop where
  /-- Every operator is the one its symbol stands for. -/
  canonical : Canonical m.operators
  /-- The keys of timers are in order, and the machine and its list of timers take two levels. -/
  timers : ∀ t ∈ m.timers, t.isOrdered = true ∧ t.depth ≤ 125

lemma ensures_read : (Machine.read Json.Tree.value).Ensures Json.maxDepth IsRead := by
  refine ensures_record (P := fun
    | .timers, (timers : List Json) => ∀ t ∈ timers, t.isOrdered = true ∧ t.depth ≤ 125
    | .states, (states : List State) => Canonical (states.flatMap State.operators)) ?_ ?_
  · rintro (_ | _)
    · exact ensures_list fun _ _ h => Json.Tree.isOrdered_and_depth_of_value h
    · exact fun t a h => canonical_flatMap.mpr (ensures_list (State.ensures_read _) t a h)
  · intro absent slots m hslots hm
    simp only [bind_eq_ok_iff, Slots.require_eq_ok_iff] at hm
    obtain ⟨states, hstates, hm⟩ := hm
    cases hm
    exact ⟨hslots .states states hstates, Slots.getD_forall (hslots .timers) nofun⟩

theorem isRead_of_ofText {text : String} {m : Machine Json}
    (h : Machine.ofText .json text = .ok m) : m.IsRead := by
  rw [ofText, run] at h
  split at h
  case h_1 t _ => exact ensures_read t m h
  case h_2 => cases h

end Machine

end Microstep
