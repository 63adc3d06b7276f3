import Microstep.Proofs.Compilation
import Microstep.Proofs.MachineRoundTrip

/-!
# Writing what was read

A machine can be read from many texts: with members in any order and others among them, with records
as arrays, with lists left out, with a condition that is `null`, with another symbol for an
operator.  Written again it has one text in each layout, and nothing is lost on the way: that text
is read as the same machine, is written as itself, and compiles as the first one did
(`Machine.text_stable`).

What is read back is limited in depth, and the new text may be nested more deeply than the old one,
since a list that was left out is written.  It never gets too deep, though.  An expression of a
state is read with five levels less than the text may have, whichever form the records around it
have, so it is at most 122 operations tall (`Machine.depth_json_of_ofText`); and that is how tall an
expression may be in the text that is written.
-/

namespace Microstep

open Json (Reader Shape Layout)
open Json.Reader Json.Shape

/-! ## How tall expressions can be -/

lemma Expr.ensures_height (d : Nat) : Expr.read.Ensures d fun e => e.height ≤ d := by
  have hleaf : ∀ d, (Operand.read.map Expr.leaf).Ensures d fun e => e.height ≤ d :=
    fun d => Ensures.map fun _ _ _ => Nat.zero_le d
  induction d with
  | zero => exact ensures_choice (List.forall_mem_singleton.mpr (hleaf 0))
  | succ d ih =>
      refine ensures_choice (List.forall_mem_cons.mpr ⟨hleaf (d + 1), ?_⟩)
      refine List.forall_mem_singleton.mpr (ensures_object (P := fun
        | .left, (e : Expr) => e.height ≤ d
        | .right, (e : Expr) => e.height ≤ d
        | .operator, _ => True) ?_ ?_)
      · rintro (_ | _ | _)
        · exact ih
        · exact ih
        · exact fun _ _ _ => trivial
      · intro absent slots e hslots he
        simp only [bind_eq_ok_iff, Slots.require_eq_ok_iff] at he
        obtain ⟨l, hl, r, hr, op, -, he⟩ := he
        cases he
        have hleft : l.height ≤ d := hslots .left l hl
        have hright : r.height ≤ d := hslots .right r hr
        exact Nat.succ_le_succ (max_le hleft hright)

/-! ## The expressions of a machine that was read

Whatever holds of all expressions that are read with some levels left holds of those of a statement
that is read with one level more, and so on outwards.
-/

section

variable {P : Expr → Prop} {d : Nat}

lemma Statement.ensures_amount (h : Expr.read.Ensures (d - 1) P) :
    Statement.read.Ensures d fun s => P s.amount := by
  refine ensures_record (P := fun
    | .amount, (e : Expr) => P e
    | .left, _ => True
    | .operator, _ => True
    | .out, _ => True) ?_ ?_
  · rintro (_ | _ | _ | _)
    · exact fun _ _ _ => trivial
    · exact h
    · exact fun _ _ _ => trivial
    · exact fun _ _ _ => trivial
  · intro absent slots s hslots hs
    simp only [bind_eq_ok_iff, Slots.require_eq_ok_iff] at hs
    obtain ⟨left, _, amount, hamount, op, _, out, _, hs⟩ := hs
    cases hs
    exact hslots .amount amount hamount

lemma Transition.ensures_condition (h : Expr.read.Ensures (d - 1) P) :
    Transition.read.Ensures d fun t => ∀ e ∈ t.condition, P e := by
  refine ensures_record (P := fun
    | .condition, (o : Option Expr) => ∀ e ∈ o, P e
    | .target, _ => True) ?_ ?_
  · rintro (_ | _)
    · exact ensures_optional h
    · exact fun _ _ _ => trivial
  · intro absent slots t hslots ht
    simp only [bind_eq_ok_iff, Slots.require_eq_ok_iff] at ht
    obtain ⟨target, _, ht⟩ := ht
    cases ht
    exact Slots.getD_forall (hslots .condition) nofun

/-- A state takes three levels around its expressions, one of them for a list. -/
lemma State.ensures_exprs (h : Expr.read.Ensures (d - 3) P) :
    State.read.Ensures d fun s => ∀ e ∈ s.exprs, P e := by
  refine ensures_record (P := fun
    | .id, _ => True
    | .statements, (statements : List Statement) => ∀ e ∈ statements.map Statement.amount, P e
    | .transitions, (transitions : List Transition) =>
        ∀ e ∈ transitions.filterMap Transition.condition, P e) ?_ ?_
  · rintro (_ | _ | _)
    · exact fun _ _ _ => trivial
    · intro t statements hread
      exact List.forall_mem_map.mpr (ensures_list (Statement.ensures_amount h) t statements hread)
    · intro t transitions hread e he
      obtain ⟨u, hu, hue⟩ := List.mem_filterMap.mp he
      exact ensures_list (Transition.ensures_condition h) t transitions hread u hu e hue
  · intro absent slots s hslots hs
    simp only [bind_eq_ok_iff, Slots.require_eq_ok_iff] at hs
    obtain ⟨id, _, hs⟩ := hs
    cases hs
    exact List.forall_mem_append.mpr
      ⟨Slots.getD_forall (hslots .statements) nofun, Slots.getD_forall (hslots .transitions) nofun⟩

/-- A machine takes five levels around its expressions. -/
lemma Machine.ensures_exprs (h : Expr.read.Ensures (d - 5) P) :
    (Machine.read Json.Tree.value).Ensures d fun m => ∀ e ∈ m.exprs, P e := by
  refine ensures_record (P := fun
    | .timers, _ => True
    | .states, (states : List State) => ∀ s ∈ states, ∀ e ∈ s.exprs, P e) ?_ ?_
  · rintro (_ | _)
    · exact fun _ _ _ => trivial
    · exact ensures_list (State.ensures_exprs h)
  · intro absent slots m hslots hm
    simp only [bind_eq_ok_iff, Slots.require_eq_ok_iff] at hm
    obtain ⟨states, hstates, hm⟩ := hm
    cases hm
    exact List.forall_mem_flatMap.mpr (hslots .states states hstates)

end

/-! ## Writing it again -/

namespace Machine

/-- **A machine that was read is not too deep to be read again.** -/
lemma depth_json_of_ofText {text : String} {m : Machine Json}
    (h : Machine.ofText .json text = .ok m) : m.json.depth ≤ Json.maxDepth := by
  have hexprs : ∀ e ∈ m.exprs, e.height ≤ 122 := by
    rw [ofText, run] at h
    split at h
    case h_1 t _ => exact ensures_exprs (Expr.ensures_height _) t m h
    case h_2 => cases h
  have htimers := (isRead_of_ofText h).timers
  exact depth_json_le_iff.mpr ⟨fun t ht => (htimers t ht).2, hexprs⟩

/-- The text of a machine that was read is read as that machine. -/
lemma ofText_text {text : String} {m : Machine Json} (h : Machine.ofText .json text = .ok m)
    (hfloat : ∀ t ∈ m.timers, t.isFloatFree = true) {layout : Layout} (hlayout : layout.IsBlank) :
    Machine.ofText .json (m.json.text layout) = .ok m := by
  have hread := isRead_of_ofText h
  have hreads := reads_json (d := Json.maxDepth) hread.canonical fun t ht =>
    ⟨hfloat t ht, (hread.timers t ht).1⟩
  have hrun := hreads.run_text hlayout (isFloatFree_json hfloat)
  rwa [if_pos (depth_json_of_ofText h)] at hrun

end Machine

/-- Compiling a text depends on the machine that is read from it only. -/
lemma compile_eq_of_ofText_eq {text text' : String}
    (h : Machine.ofText .json text = Machine.ofText .json text') (naming : Naming) :
    compile naming text = compile naming text' := by
  rw [compile, compile, compileWith, compileWith, h]

/-- **Writing what was read is stable.**  Let a machine be read from any text, and let no timer have
a float.  Then its operators are those that their symbols stand for.  Written without blanks or on
indented lines, it is read as the same machine, that one is written as the same text, and with every
naming the new text compiles to what the first one compiles to, or fails as it does. -/
theorem Machine.text_stable {text : String} {m : Machine Json}
    (h : Machine.ofText .json text = .ok m) (hfloat : ∀ t ∈ m.timers, t.isFloatFree = true) :
    (∀ op ∈ m.operators, op.IsCanonical)
    ∧ ∀ layout ∈ [Layout.compact, Layout.indented],
        ∃ out, m.text? .json layout = some out
          ∧ Machine.ofText .json out = .ok m
          ∧ (Machine.ofText .json out).toOption.bind (Machine.text? .json layout) = some out
          ∧ ∀ naming, compile naming out = compile naming text := by
  refine ⟨(isRead_of_ofText h).canonical, fun layout hlayout => ?_⟩
  have hread := ofText_text h hfloat (Layout.isBlank_of_mem layout hlayout)
  refine ⟨m.json.text layout, text?_json layout m, hread, ?_, fun naming => ?_⟩
  · rw [hread]
    exact text?_json layout m
  · exact compile_eq_of_ofText_eq (hread.trans h.symm) naming

/-- A text with blanks, members out of order, unknown members of which one is no readable value, a
key of a timer twice, a state as an array that is cut short, transitions in both forms, a condition
that is `null`, a list left out, escapes, and a second symbol for an operator. -/
def scrawl : String :=
  "\t\x7b \"note\" : [1e999],\n\"states\":[\x7b\"transitions\":[\x7b\"goto\":\"\\u0062\",\"x\":0,"
    ++ "\"condition\":\x7b\"operator\":\"==\",\"left\":\x7b\"right\":3,\"left\":\"X\","
    ++ "\"operator\":\"%\",\"left \":null\x7d,\"right\":\"\\u00e9\\n\"\x7d\x7d,[null,7]],"
    ++ "\"state\":7\x7d,[\"b\",[[\"X\",1,\"+\",\"X\"]]]] , "
    ++ "\"timers\":[\x7b\"b\":1,\"a\":[-2],\"b\":null\x7d]\x7d "

/-- What it is the text of. -/
def scrawled : Machine Json :=
  { timers := [.obj [("a", .arr [.int64 (-2)]), ("b", .null)]]
    states :=
      [ { id := .numeric 7
          statements := []
          transitions :=
            [ { condition :=
                  some (.node (.node (.leaf (.name "X")) .rem (.leaf (.literal 3))) .eq
                    (.leaf (.name "é\n")))
                target := .symbolic "b" },
              { condition := none, target := .numeric 7 } ] },
        { id := .symbolic "b"
          statements := [.increment "X" (.leaf (.literal 1))]
          transitions := [] } ] }

theorem Machine.text_stable_scrawl :
    Machine.ofText .json scrawl = .ok scrawled
    ∧ (∀ op ∈ scrawled.operators, op.IsCanonical)
    ∧ ∀ layout ∈ [Layout.compact, Layout.indented],
        ∃ out, scrawled.text? .json layout = some out
          ∧ Machine.ofText .json out = .ok scrawled
          ∧ (Machine.ofText .json out).toOption.bind (Machine.text? .json layout) = some out
          ∧ ∀ naming, compile naming out = compile naming scrawl := by
  have hread : Machine.ofText .json scrawl = .ok scrawled := by decide +kernel
  exact ⟨hread, text_stable hread (by decide)⟩

end Microstep
