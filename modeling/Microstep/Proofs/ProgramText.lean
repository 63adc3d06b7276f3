import Microstep.Proofs.Json.Reading
import Microstep.Proofs.Operators
import Microstep.Wire.Text

/-!
# Reading a program undoes writing it

The text of a program is read as that program, in either layout (`Program.ofText_text`).  Addresses
and starts may be anything, blocks and op-steps may be empty, and names may hold any characters.

Part by part, what is written is read back (`reads_toJson`), and a record of timers and states is
read back if its states are (`Timed.reads_obj`).  A micro-op does not say which of the three it is,
so the ones that are tried before it have to refuse it: they know only their own fields, and its
first key is none of them.

Two conditions remain.  An operator must be the one its symbol stands for.  Timers must be float-free
values, with the keys of every object in order and each once, as values are kept; and they may be
nested as deeply as the text leaves room for, which is two levels less than the text as a whole.
-/

namespace Microstep

open Json (Reader Shape Layout)
open Json.Reader Json.Shape

variable {d : Nat}

/-! ## Operators and operands -/

lemma Operator.reads_toJson {op : Operator} (h : op.IsCanonical) :
    Operator.read.Reads d op.toJson op := by
  have hread := (reads_string (d := d) op.symbol).map Operator.ofSymbol
  rwa [show Operator.ofSymbol op.symbol = op from h] at hread

lemma Operand.reads_toJson (o : Operand String) : Operand.read.Reads d o.toJson o := by
  cases o with
  | literal n => exact reads_choice [] rfl (by simp) ((reads_int64 n).map Operand.literal)
  | name r =>
      refine reads_choice [Reader.int64.map Operand.literal] rfl ?_
        ((reads_string r).map Operand.name)
      exact List.forall_mem_singleton.mpr ((refuses_int64_str r).map Operand.literal)

@[simp] lemma Operator.isFloatFree_toJson (op : Operator) : op.toJson.isFloatFree = true := rfl

@[simp] lemma Operator.depth_toJson (op : Operator) : op.toJson.depth = 0 := rfl

@[simp] lemma Operand.isFloatFree_toJson (o : Operand String) : o.toJson.isFloatFree = true := by
  cases o <;> rfl

@[simp] lemma Operand.depth_toJson (o : Operand String) : o.toJson.depth = 0 := by
  cases o <;> rfl

/-! ## Micro-ops -/

lemma GuardOpening.reads_toJson : GuardOpening.read.Reads d GuardOpening.toJson () :=
  reads_record (fills_cons rfl rfl (reads_bool true) (fills_nil _)) rfl

lemma Compute.reads_toJson {c : Compute String} (h : c.operator.IsCanonical) :
    Compute.read.Reads d c.toJson c := by
  obtain ⟨left, right, operator, countFromInput, out⟩ := c
  cases countFromInput with
  | none =>
      exact reads_record
        (fills_cons rfl rfl left.reads_toJson
          (fills_cons rfl rfl right.reads_toJson
            (fills_cons rfl rfl (Operator.reads_toJson h)
              (fills_cons rfl rfl (reads_string out) (fills_nil _))))) rfl
  | some b =>
      exact reads_record
        (fills_cons rfl rfl left.reads_toJson
          (fills_cons rfl rfl right.reads_toJson
            (fills_cons rfl rfl (Operator.reads_toJson h)
              (fills_cons rfl rfl ((reads_bool b).optional (by simp))
                (fills_cons rfl rfl (reads_string out) (fills_nil _)))))) rfl

lemma Branch.reads_toJson (r : String) (target : Address) :
    (Branch.read Reader.uint32).Reads d (Branch.toJson Json.uint32 r target) (r, target) :=
  reads_record
    (fills_cons rfl rfl (reads_string r) (fills_cons rfl rfl (reads_uint32 target) (fills_nil _)))
    rfl

namespace MicroOp

/-- A micro-op has no floats. -/
@[simp] lemma isFloatFree_toJson (op : MicroOp String Address) :
    (op.toJson Json.uint32).isFloatFree = true := by
  cases op with
  | openGuard => rfl
  | compute c =>
      obtain ⟨left, right, operator, countFromInput, out⟩ := c
      cases countFromInput <;> simp [toJson, Compute.toJson]
  | branch r target => simp [toJson, Branch.toJson]

/-- A micro-op is an object of scalars. -/
lemma depth_toJson_le (op : MicroOp String Address) : (op.toJson Json.uint32).depth ≤ 1 := by
  cases op with
  | openGuard => decide
  | compute c =>
      obtain ⟨left, right, operator, countFromInput, out⟩ := c
      cases countFromInput <;> simp [toJson, Compute.toJson]
  | branch r target => simp [toJson, Branch.toJson]

/-- **A micro-op is told apart by its fields**: what is tried before it does not know its first
key. -/
lemma reads_toJson {op : MicroOp String Address} (h : Canonical op.operator?.toList) :
    (MicroOp.read Reader.uint32).Reads d (op.toJson Json.uint32) op := by
  have hguard : ∀ {key : String} (v : Json) (members : List (String × Json)), key ≠ "guard" →
      GuardOpening.read.Refuses (.obj ((key, v) :: members)) := fun v members hkey =>
    refuses_record rfl (by simpa [field?, GuardOpening.shape] using hkey.symm) v members
  cases op with
  | openGuard => exact reads_choice [] rfl (by simp) (GuardOpening.reads_toJson.map _)
  | compute c =>
      refine reads_choice [GuardOpening.read.map _] (isFloatFree_toJson (.compute c)) ?_
        ((Compute.reads_toJson (canonical_singleton.mp h)).map MicroOp.compute)
      exact List.forall_mem_singleton.mpr ((hguard _ _ (by decide)).map _)
  | branch r target =>
      refine reads_choice [GuardOpening.read.map _, Compute.read.map MicroOp.compute]
        (isFloatFree_toJson (.branch r target)) ?_ ((Branch.reads_toJson r target).map _)
      exact List.forall_mem_cons.mpr ⟨(hguard _ _ (by decide)).map _,
        List.forall_mem_singleton.mpr ((refuses_record rfl rfl _ _).map _)⟩

end MicroOp

/-! ## Op-steps, blocks, states -/

namespace OpStep

lemma reads_toJson {step : OpStep String Address} (h : Canonical step.operators) :
    (OpStep.read Reader.uint32).Reads d (step.toJson Json.uint32) step :=
  reads_list_map fun op hop => MicroOp.reads_toJson (canonical_flatMap.mp h op hop)

@[simp] lemma isFloatFree_toJson (step : OpStep String Address) :
    (step.toJson Json.uint32).isFloatFree = true := by
  simp [toJson]

lemma depth_toJson_le (step : OpStep String Address) : (step.toJson Json.uint32).depth ≤ 2 := by
  simp [toJson, MicroOp.depth_toJson_le]

end OpStep

namespace Block

lemma reads_toJson {b : Block String} (h : Canonical b.operators) :
    Block.read.Reads d b.toJson b := by
  have hsteps := reads_list_map (d := d - 1) fun step hstep =>
    OpStep.reads_toJson (canonical_flatMap.mp h step hstep)
  exact reads_record
    (fills_cons rfl rfl (reads_uint32 b.start) (fills_cons rfl rfl hsteps (fills_nil _))) rfl

@[simp] lemma isFloatFree_toJson (b : Block String) : b.toJson.isFloatFree = true := by
  simp [toJson]

lemma depth_toJson_le (b : Block String) : b.toJson.depth ≤ 4 := by
  simp [toJson, OpStep.depth_toJson_le]

end Block

namespace ProgramState

lemma reads_toJson {q : ProgramState String} (h : Canonical q.operators) :
    ProgramState.read.Reads d q.toJson q := by
  have hblocks := reads_list_map (d := d - 1) fun b hb =>
    Block.reads_toJson (canonical_flatMap.mp h b hb)
  exact reads_record
    (fills_cons rfl rfl (reads_uint32 q.address) (fills_cons rfl rfl hblocks (fills_nil _))) rfl

@[simp] lemma isFloatFree_toJson (q : ProgramState String) : q.toJson.isFloatFree = true := by
  simp [toJson]

lemma depth_toJson_le (q : ProgramState String) : q.toJson.depth ≤ 6 := by
  simp [toJson, Block.depth_toJson_le]

end ProgramState

/-! ## Records of timers and states -/

/-- Timers that are JSON are written as they are. -/
lemma TimerFormat.mapM_write_json (timers : List Json) :
    timers.mapM TimerFormat.json.write = some timers := by
  simpa [TimerFormat.json] using List.mapM_pure (m := Option) (f := id) (l := timers)

namespace Timed

variable {σ α : Type} {timers : List Json} {states : List σ} {write : σ → Json}

lemma toJson?_json (write : σ → Json) (timers : List Json) (states : List σ) :
    toJson? TimerFormat.json.write write timers states
      = some (.obj [("timers", .arr timers), ("states", .arr (states.map write))]) := by
  rw [toJson?, TimerFormat.mapM_write_json]
  rfl

lemma isFloatFree_obj (htimers : ∀ t ∈ timers, t.isFloatFree = true)
    (hstates : ∀ s ∈ states, (write s).isFloatFree = true) :
    Json.isFloatFree (.obj [("timers", .arr timers), ("states", .arr (states.map write))])
      = true := by
  simp only [Json.isFloatFree_obj, List.forall_mem_cons, Json.isFloatFree_arr, List.forall_mem_map]
  exact ⟨htimers, hstates, by simp⟩

/-- **Timers and states are read back** if each of them is. -/
lemma reads_obj {state : Reader σ} {make : List Json → List σ → α}
    (htimers : ∀ t ∈ timers, t.isFloatFree = true ∧ t.isOrdered = true)
    (hstates : ∀ s ∈ states, state.Reads (d - 1 - 1) (write s) s) :
    (read Json.Tree.value state make).Reads d
      (.obj [("timers", .arr timers), ("states", .arr (states.map write))])
      (make timers states) := by
  have hread : (list Json.Tree.value).Reads (d - 1) (.arr (timers.map fun t => t)) timers :=
    reads_list_map fun t ht => reads_value (htimers t ht).1 (htimers t ht).2
  rw [List.map_id'] at hread
  exact reads_record
    (fills_cons rfl rfl hread (fills_cons rfl rfl (reads_list_map hstates) (fills_nil _))) rfl

end Timed

/-! ## Programs -/

namespace Program

/-- A program whose timers are JSON is JSON. -/
def json (p : Program String Json) : Json :=
  .obj [("timers", .arr p.timers), ("states", .arr (p.states.map ProgramState.toJson))]

lemma text?_json (layout : Layout) (p : Program String Json) :
    p.text? .json layout = some (p.json.text layout) := by
  rw [text?, toJson?, Timed.toJson?_json]
  rfl

lemma reads_json {p : Program String Json} (hoperators : Canonical p.operators)
    (htimers : ∀ t ∈ p.timers, t.isFloatFree = true ∧ t.isOrdered = true) :
    (Program.read Json.Tree.value).Reads d p.json p :=
  Timed.reads_obj htimers fun q hq =>
    ProgramState.reads_toJson (canonical_flatMap.mp hoperators q hq)

/-- **A written program is read back**, in every layout that adds blanks only. -/
theorem ofText_text {layout : Layout} (hlayout : layout.IsBlank) {p : Program String Json}
    (hoperators : Canonical p.operators)
    (htimers : ∀ t ∈ p.timers, t.isFloatFree = true ∧ t.isOrdered = true ∧ t.depth ≤ 125) :
    Program.ofText .json (p.json.text layout) = .ok p := by
  have hreads := reads_json (d := Json.maxDepth) hoperators fun t ht =>
    ⟨(htimers t ht).1, (htimers t ht).2.1⟩
  have hfloat : p.json.isFloatFree = true :=
    Timed.isFloatFree_obj (fun t ht => (htimers t ht).1) fun q _ => q.isFloatFree_toJson
  have hdepth : p.json.depth ≤ Json.maxDepth := by
    show p.json.depth ≤ 125 + 2
    simp only [json, Json.depth_obj_le_iff, List.forall_mem_cons, Json.depth_arr_le_iff,
      List.forall_mem_map]
    exact ⟨fun t ht => (htimers t ht).2.2, fun q _ => q.depth_toJson_le.trans (by decide), by simp⟩
  exact (hreads.run_text hlayout hfloat).trans (if_pos hdepth)

/-- **Reading a program undoes writing it**, without blanks and on indented lines.  The operators
must be those that their symbols stand for, and the timers values without floats, with the keys of
every object in order and each of them once, that are nested at most 125 deep. -/
theorem text_reads_back {p : Program String Json}
    (hoperators : ∀ op ∈ p.operators, op.IsCanonical)
    (htimers : ∀ t ∈ p.timers, t.isFloatFree = true ∧ t.isOrdered = true ∧ t.depth ≤ 125) :
    ∀ layout ∈ [Layout.compact, Layout.indented],
      ∃ text, p.text? .json layout = some text ∧ Program.ofText .json text = .ok p := by
  intro layout hlayout
  have hblank := Layout.isBlank_of_mem layout hlayout
  exact ⟨_, text?_json layout p, ofText_text hblank hoperators htimers⟩

/-- Names that need escaping, blocks and op-steps without content, starts and addresses that no
lowering would give, and timers of every kind of value. -/
def assorted : Program String Json :=
  { timers :=
      [ .null,
        .obj
          [ ("", .arr [.bool false, .num (.int (-9223372036854775808) (by decide)), .obj []]),
            ("\"\\", .str "\u0001\n/é😀"),
            ("k", .arr [.arr [.arr []], .num (.int 18446744073709551615 (by decide))]) ] ]
    states :=
      [ { address := 4294967295, blocks := [] },
        { address := 0
          blocks :=
            [ { start := 7, steps := [] },
              { start := 7
                steps :=
                  [ [],
                    [ .branch "" 4294967295,
                      .compute
                        { left := .literal (-5), right := .name "", operator := .other "guard"
                          countFromInput := some true, out := "\u007f\t" },
                      .openGuard,
                      .compute
                        { left := .name "5", right := .literal 0, operator := .eq
                          countFromInput := none, out := "branch" },
                      .openGuard ],
                    [ .compute
                        { left := .name "null", right := .name "é", operator := .other ""
                          countFromInput := some false, out := "goto" } ] ] } ] } ] }

theorem text_reads_back_assorted :
    (∀ op ∈ assorted.operators, op.IsCanonical)
      ∧ (∀ t ∈ assorted.timers, t.isFloatFree = true ∧ t.isOrdered = true ∧ t.depth ≤ 125)
      ∧ ∀ layout ∈ [Layout.compact, Layout.indented],
          ∃ text, assorted.text? .json layout = some text
            ∧ Program.ofText .json text = .ok assorted := by
  have hoperators : ∀ op ∈ assorted.operators, op.IsCanonical := by decide
  have htimers : ∀ t ∈ assorted.timers,
      t.isFloatFree = true ∧ t.isOrdered = true ∧ t.depth ≤ 125 := by decide
  exact ⟨hoperators, htimers, text_reads_back hoperators htimers⟩

end Program

end Microstep
