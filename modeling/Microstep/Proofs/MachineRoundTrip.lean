import Microstep.Proofs.ProgramText

/-!
# Reading a machine undoes writing it

The text of a machine is read as that machine, exactly up to the nesting limit: where the written
value has more levels than a text may have, reading tells that it is too deep
(`Machine.text_reads_back_within`).

An expression is written with one level for each operation on the way to an operand, so how deeply
it is nested is how tall it is (`Expr.depth_toJson`).  Its reader is defined by recursion on the
levels that are left, and is compared with the written form by induction on the expression
(`Expr.reads_toJson`).  Everything around expressions is put together from the rules for records and
lists (`reads_toJson`), and takes five levels: the machine, its states, a state, one of its lists,
and a statement or a transition.
-/

namespace Microstep

open Json (Reader Shape Layout)
open Json.Reader Json.Shape

variable {d : Nat}

/-! ## Expressions -/

/-- An operation is not taken for an operand. -/
lemma Operand.refuses_obj (members : List (String × Json)) :
    Operand.read.Refuses (.obj members) := by
  have hliteral : Reader.int64.Refuses (.obj members) := fun _ => ⟨.wrongType, rfl⟩
  have hname : Reader.string.Refuses (.obj members) := fun _ => ⟨.wrongType, rfl⟩
  exact refuses_choice (List.forall_mem_cons.mpr ⟨hliteral.map _,
    List.forall_mem_singleton.mpr (hname.map _)⟩)

namespace Expr

/-- **How tall an expression is**: the most operations on a way from the root to an operand. -/
def height : Expr → Nat
  | .leaf _ => 0
  | .node l _ r => max l.height r.height + 1

@[simp] lemma isFloatFree_toJson (e : Expr) : e.toJson.isFloatFree = true := by
  induction e with
  | leaf o => simp [toJson]
  | node l op r ihl ihr => simp [toJson, ihl, ihr]

/-- Each operation on the way to an operand is a level. -/
@[simp] lemma depth_toJson (e : Expr) : e.toJson.depth = e.height := by
  induction e with
  | leaf o => exact o.depth_toJson
  | node l op r ihl ihr =>
      rw [toJson, Json.depth, Json.fold_obj]
      show Json.deepest [l.toJson.depth, r.toJson.depth, op.toJson.depth] + 1 = _
      simp [Json.deepest, height, ihl, ihr]

/-- **A written expression is read back**, operands first. -/
lemma reads_toJson {e : Expr} (h : Canonical e.operators) : Expr.read.Reads d e.toJson e := by
  induction e generalizing d with
  | leaf o =>
      have hleaf : ∀ d back, (choice "Expr" (Operand.read.map Expr.leaf :: back)).Reads d o.toJson
          (Expr.leaf o) :=
        fun _ _ => reads_choice [] o.isFloatFree_toJson (by simp) (o.reads_toJson.map Expr.leaf)
      cases d with
      | zero => exact hleaf 0 []
      | succ d => exact hleaf (d + 1) _
  | node l op r ihl ihr =>
      obtain ⟨hlr, hop⟩ := canonical_append.mp h
      obtain ⟨hl, hr⟩ := canonical_append.mp hlr
      have hfloat := isFloatFree_toJson (.node l op r)
      cases d with
      | zero =>
          have hdepth : 0 < (toJson (.node l op r)).depth := by simp [height]
          exact (choice_tree_of_lt _ _ hfloat hdepth).trans (if_neg hdepth.not_ge).symm
      | succ d =>
          -- the operands are read with the levels that are left, whatever the reader is told
          have hleft : Reads (fun _ => Expr.read d) d l.toJson l := ihl hl
          have hright : Reads (fun _ => Expr.read d) d r.toJson r := ihr hr
          have hnode : (readNode fun _ => Expr.read d).Reads (d + 1) (toJson (.node l op r))
              (.node l op r) :=
            reads_object
              (fills_cons rfl rfl hleft
                (fills_cons rfl rfl hright
                  (fills_cons rfl rfl (Operator.reads_toJson (canonical_singleton.mp hop))
                    (fills_nil _)))) rfl
          refine reads_choice [Operand.read.map Expr.leaf] hfloat ?_ hnode
          exact List.forall_mem_singleton.mpr ((Operand.refuses_obj _).map _)

lemma toJson_ne_null (e : Expr) : e.toJson ≠ .null := by
  cases e with
  | leaf o => cases o <;> simp [toJson, Operand.toJson, Json.int64]
  | node l op r => simp [toJson]

end Expr

/-! ## Statements, transitions, states -/

namespace StateId

lemma reads_toJson (id : StateId) : StateId.read.Reads d id.toJson id := by
  cases id with
  | numeric a => exact reads_choice [] rfl (by simp) ((reads_uint32 a).map StateId.numeric)
  | symbolic l =>
      refine reads_choice [Reader.uint32.map StateId.numeric] rfl ?_
        ((reads_string l).map StateId.symbolic)
      exact List.forall_mem_singleton.mpr ((refuses_uint32_str l).map StateId.numeric)

@[simp] lemma isFloatFree_toJson (id : StateId) : id.toJson.isFloatFree = true := by
  cases id <;> simp [toJson]

@[simp] lemma depth_toJson (id : StateId) : id.toJson.depth = 0 := by
  cases id <;> simp [toJson]

end StateId

namespace Statement

lemma reads_toJson {s : Statement} (h : Canonical s.operators) :
    Statement.read.Reads d s.toJson s := by
  obtain ⟨hamount, hop⟩ := canonical_append.mp h
  exact reads_record
    (fills_cons rfl rfl (reads_string s.left)
      (fills_cons rfl rfl (Expr.reads_toJson hamount)
        (fills_cons rfl rfl (Operator.reads_toJson (canonical_singleton.mp hop))
          (fills_cons rfl rfl (reads_string s.out) (fills_nil _))))) rfl

@[simp] lemma isFloatFree_toJson (s : Statement) : s.toJson.isFloatFree = true := by
  simp [toJson]

@[simp] lemma depth_toJson_le_iff {s : Statement} :
    s.toJson.depth ≤ d + 1 ↔ s.amount.height ≤ d := by
  simp [toJson]

end Statement

namespace Transition

lemma reads_toJson {t : Transition} (h : Canonical t.operators) :
    Transition.read.Reads d t.toJson t := by
  obtain ⟨condition, target⟩ := t
  cases condition with
  | none => exact reads_record (fills_cons rfl rfl target.reads_toJson (fills_nil _)) rfl
  | some c =>
      have hcondition := Expr.reads_toJson (d := d - 1) (canonical_flatMap.mp h c (by simp))
      exact reads_record
        (fills_cons rfl rfl (hcondition.optional c.toJson_ne_null)
          (fills_cons rfl rfl target.reads_toJson (fills_nil _))) rfl

@[simp] lemma isFloatFree_toJson (t : Transition) : t.toJson.isFloatFree = true := by
  obtain ⟨condition, target⟩ := t
  cases condition <;> simp [toJson]

@[simp] lemma depth_toJson_le_iff {t : Transition} :
    t.toJson.depth ≤ d + 1 ↔ ∀ e ∈ t.condition, e.height ≤ d := by
  obtain ⟨condition, target⟩ := t
  cases condition <;> simp [toJson]

end Transition

namespace State

/-- The expressions of a state: the amounts of its statements and the conditions that are there. -/
def exprs (s : State) : List Expr :=
  s.statements.map Statement.amount ++ s.transitions.filterMap Transition.condition

lemma reads_toJson {s : State} (h : Canonical s.operators) : State.read.Reads d s.toJson s := by
  obtain ⟨hstatements, htransitions⟩ := canonical_append.mp h
  have hreads := reads_list_map (d := d - 1) fun st hst =>
    Statement.reads_toJson (canonical_flatMap.mp hstatements st hst)
  have hreads' := reads_list_map (d := d - 1) fun t ht =>
    Transition.reads_toJson (canonical_flatMap.mp htransitions t ht)
  exact reads_record
    (fills_cons rfl rfl s.id.reads_toJson
      (fills_cons rfl rfl hreads (fills_cons rfl rfl hreads' (fills_nil _)))) rfl

@[simp] lemma isFloatFree_toJson (s : State) : s.toJson.isFloatFree = true := by
  simp [toJson]

/-- A state takes three levels around its expressions. -/
@[simp] lemma depth_toJson_le_iff {s : State} :
    s.toJson.depth ≤ d + 3 ↔ ∀ e ∈ s.exprs, e.height ≤ d := by
  have hconditions : (∀ e ∈ s.transitions.filterMap Transition.condition, e.height ≤ d)
      ↔ ∀ t ∈ s.transitions, ∀ e ∈ t.condition, e.height ≤ d := by
    simp only [List.mem_filterMap]
    exact ⟨fun h t ht e he => h e ⟨t, ht, he⟩, fun h e ⟨t, ht, he⟩ => h t ht e he⟩
  rw [exprs, List.forall_mem_append, hconditions]
  simp [toJson]

end State

/-! ## Machines -/

namespace Machine

/-- The expressions of a machine. -/
def exprs {τ : Type} (m : Machine τ) : List Expr := m.states.flatMap State.exprs

/-- A machine whose timers are JSON is JSON. -/
def json (m : Machine Json) : Json :=
  .obj [("timers", .arr m.timers), ("states", .arr (m.states.map State.toJson))]

lemma toJson?_json (m : Machine Json) : m.toJson? TimerFormat.json.write = some m.json :=
  Timed.toJson?_json _ _ _

lemma text?_json (layout : Layout) (m : Machine Json) :
    m.text? .json layout = some (m.json.text layout) := by
  rw [text?, toJson?_json]
  rfl

lemma isFloatFree_json {m : Machine Json} (h : ∀ t ∈ m.timers, t.isFloatFree = true) :
    m.json.isFloatFree = true :=
  Timed.isFloatFree_obj h fun s _ => s.isFloatFree_toJson

lemma reads_json {m : Machine Json} (hoperators : Canonical m.operators)
    (htimers : ∀ t ∈ m.timers, t.isFloatFree = true ∧ t.isOrdered = true) :
    (Machine.read Json.Tree.value).Reads d m.json m :=
  Timed.reads_obj htimers fun s hs => State.reads_toJson (canonical_flatMap.mp hoperators s hs)

/-- **What takes up levels**: the timers, two levels down, and the expressions, five levels down. -/
lemma depth_json_le_iff {m : Machine Json} :
    m.json.depth ≤ d + 5 ↔
      (∀ t ∈ m.timers, t.depth ≤ d + 3) ∧ ∀ e ∈ m.exprs, e.height ≤ d := by
  simp only [json, exprs, Json.depth_obj_le_iff, Json.depth_arr_le_iff, List.forall_mem_cons,
    List.forall_mem_map, State.depth_toJson_le_iff, List.forall_mem_flatMap]
  simp

/-- **Reading a machine undoes writing it, exactly up to the nesting limit**, without blanks and on
indented lines.  The operators must be those that their symbols stand for, and the timers values
without floats, with the keys of every object in order and each of them once.  If the arrays and
objects of what is written stand inside each other at most 127 deep the machine is read back;
otherwise it is told to be too deep.  The first is so if no timer is nested more than 125 deep and
no expression is more than 122 operations tall; without timers, only expressions count. -/
theorem text_reads_back_within {m : Machine Json}
    (hoperators : ∀ op ∈ m.operators, op.IsCanonical)
    (htimers : ∀ t ∈ m.timers, t.isFloatFree = true ∧ t.isOrdered = true) :
    m.toJson? TimerFormat.json.write = some m.json
    ∧ (∀ layout ∈ [Layout.compact, Layout.indented],
        ∃ text, m.text? .json layout = some text
          ∧ Machine.ofText .json text
              = if m.json.depth ≤ 127 then .ok m else .error .tooDeep)
    ∧ (m.json.depth ≤ 127 ↔
        (∀ t ∈ m.timers, t.depth ≤ 125) ∧ ∀ e ∈ m.exprs, e.height ≤ 122) := by
  have hreads := reads_json (d := Json.maxDepth) hoperators htimers
  have hfloat := isFloatFree_json fun t ht => (htimers t ht).1
  refine ⟨toJson?_json m, fun layout hlayout => ?_, depth_json_le_iff⟩
  have hblank := Layout.isBlank_of_mem layout hlayout
  exact ⟨m.json.text layout, text?_json layout m, hreads.run_text hblank hfloat⟩

/-- An expression of `n` operations, each the left operand of the next. -/
def tower : Nat → Expr
  | 0 => .leaf (.literal (-1))
  | n + 1 => .node (tower n) .add (.leaf (.name "\"é😀"))

lemma height_tower (n : Nat) : (tower n).height = n := by
  induction n with
  | zero => rfl
  | succ n ih => simp [tower, Expr.height, ih]

lemma canonical_tower (n : Nat) : Canonical (tower n).operators := by
  induction n with
  | zero => simp [tower, Expr.operators, Canonical]
  | succ n ih =>
      have hleaf : Canonical (Expr.operators (.leaf (.name "\"é😀"))) := by
        simp [Expr.operators, Canonical]
      exact canonical_append.mpr ⟨canonical_append.mpr ⟨ih, hleaf⟩, canonical_singleton.mpr rfl⟩

/-- A machine with one expression, which is `n` operations tall. -/
def tall (n : Nat) (timers : List Json) : Machine Json :=
  { timers
    states :=
      [ { id := .symbolic ""
          statements := []
          transitions :=
            [ { condition := none, target := .numeric 4294967295 },
              { condition := some (tower n), target := .symbolic "" } ] } ] }

theorem text_reads_back_within_tall :
    (∀ layout ∈ [Layout.compact, Layout.indented],
      ∃ text, (tall 122 [.obj [("", .arr []), ("\n", .null)]]).text? .json layout = some text
        ∧ Machine.ofText .json text = .ok (tall 122 [.obj [("", .arr []), ("\n", .null)]]))
    ∧ ∀ layout ∈ [Layout.compact, Layout.indented],
        ∃ text, (tall 123 []).text? .json layout = some text
          ∧ Machine.ofText .json text = .error .tooDeep := by
  have hoperators : ∀ n timers, ∀ op ∈ (tall n timers).operators, op.IsCanonical := by
    intro n timers op hop
    simp only [tall, operators, State.operators, Transition.operators, List.flatMap_cons,
      List.flatMap_nil, Option.toList_none, Option.toList_some, List.nil_append,
      List.append_nil] at hop
    exact canonical_tower n op hop
  have hexprs : ∀ n timers, (tall n timers).exprs = [tower n] := fun _ _ => rfl
  constructor
  · obtain ⟨_, hread, hdepth⟩ := text_reads_back_within
      (hoperators 122 [.obj [("", .arr []), ("\n", .null)]]) (by decide)
    rw [hexprs, List.forall_mem_singleton, height_tower] at hdepth
    rwa [if_pos (hdepth.mpr ⟨by decide, le_rfl⟩)] at hread
  · obtain ⟨_, hread, hdepth⟩ := text_reads_back_within (hoperators 123 []) (by decide)
    rw [hexprs, List.forall_mem_singleton, height_tower] at hdepth
    rwa [if_neg fun h => absurd (hdepth.mp h).2 (by decide)] at hread

end Machine

end Microstep
