import Microstep.Proofs.Json.Respelling
import Microstep.Wire.Machine

/-!
# Equivalent spellings of machines

A machine can be spelled in many ways.  All of its parts are records, so members may change places
or be added and an array may stand for an object, in the machine as well as in a state, a statement
or a transition (`Machine.Respells`).  For an absent list the array has `[]` and for an absent
condition `null`.  Operations are like records, but have no array form (`Expr.Respells`).

Each type gets its changes from those of its parts, and the proof that they leave alone what is read
follows the same lines.  Only expressions contain themselves, and there both go by induction.
Before an operation is tried the whole tree must make sense, so the value of a member that is added
to one must do so as well.

Machines and programs are records of timers and states, and most of what is said about such records
does not depend on what a state is.  Timers are left as they are.  How they are read is up to the
caller, who may even make it depend on the levels that are left.  But these are always the same for
timers (`Timed.read_eq_ok_iff_fixed`).
-/

namespace Microstep

open Json (Reader Shape Tree)
open Json.Reader Json.Shape

/-! ## Scalars -/

lemma excludes_word_string {α : Type} (f : Int → α) (low high : Int) :
    (Reader.map f (Reader.integer low high)).Excludes Reader.string := by
  intro d d' t a s ha hs
  cases t with
  | num n => cases hs
  | _ => cases ha

/-- What is a word or a string asks for no levels. -/
lemma steady_wordOrString {α β : Type} {type : String} {word : Reader β} (f : β → α)
    (g : String → α) (hsteady : word.Steady) (hexcludes : word.Excludes Reader.string) :
    (Reader.choice type [Reader.map f word, Reader.map g Reader.string]).Steady := by
  intro t
  refine steadyAt_choice (by simpa using hexcludes.map f g) ?_
  simp only [List.forall_mem_cons, List.not_mem_nil, false_imp_iff, implies_true, and_true]
  exact ⟨hsteady.map f t, steady_string.map g t⟩

lemma Operator.steady_read : Operator.read.Steady := steady_string.map _

lemma StateId.steady_read : StateId.read.Steady :=
  steady_wordOrString _ _ steady_uint32 (excludes_word_string _ _ _)

lemma Operand.steady_read : Operand.read.Steady :=
  steady_wordOrString _ _ steady_int64 (excludes_word_string _ _ _)

/-- An operand is no object. -/
lemma Operand.not_takes_obj (members : List (Option String × Tree)) :
    ¬ Operand.read.Takes (.obj members) := by
  have hexcludes : Reader.int64.Excludes Reader.string := excludes_word_string _ _ _
  refine not_takes_choice (by simpa using hexcludes.map Operand.literal Operand.name) ?_
  simp only [List.forall_mem_cons, List.not_mem_nil, false_imp_iff, implies_true, and_true,
    takes_map_iff]
  constructor
  · rintro ⟨d, v, hv⟩
    cases hv
  · rintro ⟨d, v, hv⟩
    cases hv

/-! ## Expressions -/

namespace Expr

variable {operand : Reader Expr} {d : Nat} {t t' : Tree} {e : Expr}

/-- What an operation is made of. -/
def Made (operand : Reader Expr) (slots : (shape operand).Slots) (e : Expr) : Prop :=
  ∃ left op right, slots .left = some left ∧ slots .right = some right
    ∧ slots .operator = some op ∧ Expr.node left op right = e

lemma readNode_eq_ok_iff :
    readNode operand d t = .ok e ↔
      (∃ members, t = .obj members) ∧ (shape operand).Reads (Made operand) d t e := by
  rw [readNode, object_eq_ok_iff]
  simp only [bind_eq_ok_iff, Slots.require_eq_ok_iff]
  constructor
  · rintro ⟨n, members, rfl, rfl, hfits, slots, hhold, left, hleft, right, hright, op, hop, ⟨⟩⟩
    exact ⟨⟨members, rfl⟩, n, rfl, hfits, slots, hhold, left, op, right, hleft, hright, hop, rfl⟩
  · rintro ⟨⟨members, rfl⟩, n, rfl, hfits, slots, hhold, left, op, right, hleft, hright, hop, rfl⟩
    exact ⟨n, members, rfl, rfl, hfits, slots, hhold, left, hleft, right, hright, op, hop, rfl⟩

/-- The operands of an operation are read with the levels that are left in it. -/
lemma readNode_succ (n : Nat) :
    readNode (fun _ => Expr.read n) (n + 1) t = .ok e ↔ readNode Expr.read (n + 1) t = .ok e := by
  rw [readNode_eq_ok_iff, readNode_eq_ok_iff]
  refine and_congr_right fun _ => exists_congr fun k => and_congr_right fun hk => ?_
  obtain rfl : n = k := by omega
  refine and_congr_right fun _ => exists_congr fun slots => and_congr_left fun _ => ?_
  refine forall_congr' fun f => ?_
  cases f <;> exact Iff.rfl

/-- An operand excludes an operation. -/
lemma excludes_readNode : (Reader.map Expr.leaf Operand.read).Excludes (readNode operand) := by
  intro d d' t e e' he he'
  obtain ⟨o, ho, -⟩ := map_eq_ok_iff.mp he
  obtain ⟨⟨members, rfl⟩, -⟩ := readNode_eq_ok_iff.mp he'
  exact Operand.not_takes_obj members ⟨d, o, ho⟩

/-- **What is read as an expression**: an operand, or an object that is read as an operation. -/
lemma read_eq_ok_iff :
    Expr.read d t = .ok e ↔
      t.Sound d ∧ ((∃ o, Operand.read d t = .ok o ∧ Expr.leaf o = e)
        ∨ (∃ members, t = .obj members) ∧ (shape Expr.read).Reads (Made Expr.read) d t e) := by
  rw [← readNode_eq_ok_iff]
  cases d with
  | zero =>
      have hnode : readNode Expr.read 0 t ≠ .ok e := fun h => by
        obtain ⟨-, n, hn, -⟩ := readNode_eq_ok_iff.mp h
        cases hn
      rw [Expr.read, choice_eq_ok_iff (List.pairwise_singleton _ _)]
      simp [Reader.map, map_eq_ok_iff, hnode]
  | succ n =>
      rw [Expr.read, choice_eq_ok_iff (by simpa using excludes_readNode), ← readNode_succ]
      simp [Reader.map, map_eq_ok_iff]

lemma steady_field (f : Field) (u : Tree) (h : Expr.read.SteadyAt u) :
    ((shape Expr.read).read f).SteadyAt u := by
  cases f with
  | left => exact h
  | right => exact h
  | operator => exact Operator.steady_read u

/-- **Levels only stop the reading of an expression.** -/
lemma steady_read : Expr.read.Steady := by
  intro t
  induction hdepth : t.depth using Nat.strong_induction_on generalizing t with
  | _ n ih =>
      intro d d' e he henough
      obtain ⟨hsound, hform⟩ := read_eq_ok_iff.mp he
      refine read_eq_ok_iff.mpr ⟨hsound.of_enough henough, ?_⟩
      rcases hform with ⟨o, ho, rfl⟩ | ⟨hobj, hreads⟩
      · exact Or.inl ⟨o, Operand.steady_read t d d' o ho henough, rfl⟩
      · refine Or.inr ⟨hobj, hreads.of_enough (fun f u hu => steady_field f u ?_) henough⟩
        exact ih u.depth (hdepth ▸ depth_lt_of_part? hu) u rfl

/-- **Another spelling of an expression**, one change away: of an operation, or of an operand of
one. -/
inductive Respells : Tree → Tree → Prop
  | node {t t' : Tree} (h : (shape Expr.read).Rearranges t t') : Respells t t'
  | operand (front back : List (Option String × Tree)) {key : String} {t t' : Tree}
    (hkey : key = "left" ∨ key = "right") (h : Respells t t') :
    Respells (.obj (front ++ (some key, t) :: back)) (.obj (front ++ (some key, t') :: back))

lemma Respells.exists_obj (h : Respells t t') :
    ∃ members members', t = .obj members ∧ t' = .obj members' ∧ (t.Readable → t'.Readable) := by
  induction h with
  | node h => exact h.exists_obj
  | operand front back hkey h ih =>
      refine ⟨_, _, rfl, rfl, fun hreadable => ?_⟩
      obtain ⟨⟨-, hu⟩, hrest⟩ := Tree.readable_obj_append_cons_iff.mp hreadable
      obtain ⟨-, -, -, -, ih⟩ := ih
      exact Tree.readable_obj_append_cons_iff.mpr ⟨⟨rfl, ih hu⟩, hrest⟩

/-- An expression is read as the same from another object that makes sense and is read as the same
operation. -/
lemma keeps_of_reads
    (hobj : ∃ members members', t = .obj members ∧ t' = .obj members' ∧ (t.Readable → t'.Readable))
    (h : ∀ d e, (shape Expr.read).Reads (Made Expr.read) d t e →
      ∃ d', (shape Expr.read).Reads (Made Expr.read) d' t' e) : Expr.read.Keeps t t' := by
  intro d e he
  obtain ⟨members, members', rfl, rfl, hreadable⟩ := hobj
  obtain ⟨hsound, ⟨o, ho, -⟩ | ⟨-, hreads⟩⟩ := read_eq_ok_iff.mp he
  · exact absurd ⟨d, o, ho⟩ (Operand.not_takes_obj members)
  · obtain ⟨n, hn⟩ := hreadable ⟨d, hsound⟩
    obtain ⟨n', hn'⟩ := h d e hreads
    refine ⟨max n n', read_eq_ok_iff.mpr ⟨hn.of_enough (Or.inl (le_max_left n n')), Or.inr ?_⟩⟩
    refine ⟨⟨members', rfl⟩, hn'.of_enough (fun f u _ => ?_) (Or.inl (le_max_right n n'))⟩
    exact steady_field f u (steady_read u)

/-- **An expression is read as the same in another spelling.** -/
lemma Respells.keeps (h : Respells t t') : Expr.read.Keeps t t' := by
  induction h with
  | @node t t' h =>
      exact keeps_of_reads h.exists_obj fun d e he => ⟨d, he.rearrange h⟩
  | @operand front back key u u' hkey h ih =>
      refine keeps_of_reads (Respells.operand front back hkey h).exists_obj fun d e he => ?_
      refine he.inside (by simp [shape]) (fun f u => steady_field f u (steady_read u)) ?_
      rcases hkey with rfl | rfl
      · exact .member front back (f := Field.left) rfl ih
      · exact .member front back (f := Field.right) rfl ih

end Expr

/-! ## Machines -/

namespace Statement

/-- What a statement is made of. -/
def Made (slots : shape.Slots) (s : Statement) : Prop :=
  slots .left = some s.left ∧ slots .amount = some s.amount ∧ slots .operator = some s.operator
    ∧ slots .out = some s.out

lemma isRecord : shape.IsRecord Made Statement.read := by
  refine isRecord_record (by decide) (by rintro ⟨⟩ <;> decide) fun absent slots s => ?_
  simp only [bind_eq_ok_iff, Slots.require_eq_ok_iff, Made]
  constructor
  · rintro ⟨left, hleft, amount, hamount, operator, hoperator, out, hout, ⟨⟩⟩
    exact ⟨hleft, hamount, hoperator, hout⟩
  · rintro ⟨hleft, hamount, hoperator, hout⟩
    exact ⟨_, hleft, _, hamount, _, hoperator, _, hout, rfl⟩

lemma steady_field (f : Field) : (shape.read f).Steady := by
  cases f with
  | left => exact steady_string
  | amount => exact Expr.steady_read
  | operator => exact Operator.steady_read
  | out => exact steady_string

lemma steady_read : Statement.read.Steady := isRecord.steady steady_field

/-- Other spellings of the parts of a statement. -/
def Parts : Field → Tree → Tree → Prop
  | .amount => Expr.Respells
  | .left | .operator | .out => emptyRelation

/-- Another spelling of a statement, one change away. -/
def Respells : Tree → Tree → Prop := shape.Respells (fun _ => none) Parts

lemma Respells.keeps {t t' : Tree} (h : Respells t t') : Statement.read.Keeps t t' := by
  refine isRecord.keeps steady_field defaults_none (fun f u u' hu => ?_) h
  cases f with
  | amount => exact Expr.Respells.keeps hu
  | _ => exact hu.elim

end Statement

namespace Transition

/-- What a transition is made of. -/
def Made (slots : shape.Slots) (t : Transition) : Prop :=
  (slots .condition).getD none = t.condition ∧ slots .target = some t.target

lemma isRecord : shape.IsRecord Made Transition.read := by
  refine isRecord_record (by decide) (by rintro ⟨⟩ <;> decide) fun absent slots t => ?_
  simp only [bind_eq_ok_iff, Slots.require_eq_ok_iff, Made]
  constructor
  · rintro ⟨target, htarget, ⟨⟩⟩
    exact ⟨rfl, htarget⟩
  · rintro ⟨hcondition, htarget⟩
    exact ⟨_, htarget, by rw [hcondition]; rfl⟩

lemma steady_field (f : Field) : (shape.read f).Steady := by
  cases f with
  | condition => exact Expr.steady_read.optional
  | target => exact StateId.steady_read

lemma steady_read : Transition.read.Steady := isRecord.steady steady_field

/-- `null` stands for an absent condition. -/
def absent : Field → Option Tree
  | .condition => some .null
  | .target => none

lemma defaults : shape.Defaults Made absent := by
  refine ⟨fun f u hu => ?_, fun slots t h => ⟨?_, ?_⟩⟩
  · cases f with
    | condition => exact ⟨none, Option.some.inj hu ▸ rfl⟩
    | target => cases hu
  · exact Option.getD_or.trans h.1
  · exact Option.or_eq_some_iff.mpr (Or.inl h.2)

/-- Other spellings of the parts of a transition. -/
def Parts : Field → Tree → Tree → Prop
  | .condition => Expr.Respells
  | .target => emptyRelation

/-- Another spelling of a transition, one change away. -/
def Respells : Tree → Tree → Prop := shape.Respells absent Parts

lemma Respells.keeps {t t' : Tree} (h : Respells t t') : Transition.read.Keeps t t' := by
  refine isRecord.keeps steady_field defaults (fun f u u' hu => ?_) h
  cases f with
  | condition =>
      obtain ⟨members, members', rfl, rfl, -⟩ := Expr.Respells.exists_obj hu
      exact (Expr.Respells.keeps hu).optional (by simp) (by simp)
  | target => exact hu.elim

end Transition

namespace State

/-- What a state is made of. -/
def Made (slots : shape.Slots) (s : State) : Prop :=
  slots .id = some s.id ∧ (slots .statements).getD [] = s.statements
    ∧ (slots .transitions).getD [] = s.transitions

lemma isRecord : shape.IsRecord Made State.read := by
  refine isRecord_record (by decide) (by rintro ⟨⟩ <;> decide) fun absent slots s => ?_
  simp only [bind_eq_ok_iff, Slots.require_eq_ok_iff, Made]
  constructor
  · rintro ⟨id, hid, ⟨⟩⟩
    exact ⟨hid, rfl, rfl⟩
  · rintro ⟨hid, hstatements, htransitions⟩
    exact ⟨_, hid, by rw [hstatements, htransitions]; rfl⟩

lemma steady_field (f : Field) : (shape.read f).Steady := by
  cases f with
  | id => exact StateId.steady_read
  | statements => exact Statement.steady_read.list
  | transitions => exact Transition.steady_read.list

lemma steady_read : State.read.Steady := isRecord.steady steady_field

/-- The empty array stands for an absent list. -/
def absent : Field → Option Tree
  | .id => none
  | .statements | .transitions => some (.arr [])

lemma defaults : shape.Defaults Made absent := by
  refine ⟨fun f u hu => ?_, fun slots s h => ⟨?_, ?_, ?_⟩⟩
  · cases f with
    | id => cases hu
    | statements => exact ⟨[], Option.some.inj hu ▸ rfl⟩
    | transitions => exact ⟨[], Option.some.inj hu ▸ rfl⟩
  · exact Option.or_eq_some_iff.mpr (Or.inl h.1)
  · exact Option.getD_or.trans h.2.1
  · exact Option.getD_or.trans h.2.2

/-- Other spellings of the parts of a state. -/
def Parts : Field → Tree → Tree → Prop
  | .id => emptyRelation
  | .statements => Tree.Listwise Statement.Respells
  | .transitions => Tree.Listwise Transition.Respells

/-- Another spelling of a state, one change away. -/
def Respells : Tree → Tree → Prop := shape.Respells absent Parts

lemma Respells.keeps {t t' : Tree} (h : Respells t t') : State.read.Keeps t t' := by
  refine isRecord.keeps steady_field defaults (fun f u u' hu => ?_) h
  cases f with
  | id => exact hu.elim
  | statements =>
      exact keeps_list Statement.steady_read (hu.mono fun _ _ => Statement.Respells.keeps)
  | transitions =>
      exact keeps_list Transition.steady_read (hu.mono fun _ _ => Transition.Respells.keeps)

end State

/-! ## Records of timers and states -/

namespace Timed

variable {τ σ α : Type} {timer : Reader τ} {state : Reader σ} {make : List τ → List σ → α}
  {R : Tree → Tree → Prop} {t t' : Tree}

/-- What a record of timers and states is made of. -/
def Made (timer : Reader τ) (state : Reader σ) (make : List τ → List σ → α)
    (slots : (shape timer state).Slots) (a : α) : Prop :=
  ∃ states, slots .states = some states ∧ make ((slots .timers).getD []) states = a

lemma isRecord (timer : Reader τ) (state : Reader σ) (make : List τ → List σ → α) :
    (shape timer state).IsRecord (Made timer state make) (read timer state make) := by
  refine isRecord_record (by simp [shape]) (by rintro ⟨⟩ <;> simp [shape]) fun absent slots a => ?_
  simp only [bind_eq_ok_iff, Slots.require_eq_ok_iff, Made]
  exact exists_congr fun states => and_congr_right fun _ => ⟨Except.ok.inj, congrArg Except.ok⟩

lemma steady_field (htimer : timer.Steady) (hstate : state.Steady) (f : Field) :
    ((shape timer state).read f).Steady := by
  cases f with
  | timers => exact htimer.list
  | states => exact hstate.list

lemma steady_read (htimer : timer.Steady) (hstate : state.Steady) :
    (read timer state make).Steady :=
  (isRecord timer state make).steady (steady_field htimer hstate)

/-- The empty array stands for absent timers. -/
def absent : Field → Option Tree
  | .timers => some (.arr [])
  | .states => none

lemma defaults (timer : Reader τ) (state : Reader σ) (make : List τ → List σ → α) :
    (shape timer state).Defaults (Made timer state make) absent := by
  refine ⟨fun f u hu => ?_, fun slots a h => ?_⟩
  · cases f with
    | timers => exact ⟨[], Option.some.inj hu ▸ rfl⟩
    | states => cases hu
  · obtain ⟨states, hstates, hmake⟩ := h
    refine ⟨states, Option.or_eq_some_iff.mpr (Or.inl hstates), ?_⟩
    exact (congrArg (make · states) Option.getD_or).trans hmake

/-- Changes of the parts, the states being changed as `R` tells and the timers left as they are. -/
def Parts (R : Tree → Tree → Prop) : Field → Tree → Tree → Prop
  | .timers => emptyRelation
  | .states => Tree.Listwise R

/-- Another spelling of a record of timers and states, one change away.  Its keys are the same for
every kind of state. -/
def Respells (R : Tree → Tree → Prop) : Tree → Tree → Prop :=
  (shape Tree.value Tree.value).Respells absent (Parts R)

lemma Respells.keeps (htimer : timer.Steady) (hstate : state.Steady)
    (hkeeps : ∀ u u', R u u' → state.Keeps u u') (h : Respells R t t') :
    (read timer state make).Keeps t t' := by
  have hkeys : (shape timer state).Respells absent (Parts R) t t' :=
    Shape.Respells.of_keys (s := shape Tree.value Tree.value) rfl rfl rfl h
  refine (isRecord timer state make).keeps (steady_field htimer hstate)
    (defaults timer state make) (fun f u u' hu => ?_) hkeys
  cases f with
  | timers => exact hu.elim
  | states => exact keeps_list hstate (hu.mono hkeeps)

/-- Timers stand two levels deep, and are read with the levels that are left there. -/
lemma read_eq_ok_iff_fixed (n : Nat) {a : α} :
    read timer state make (n + 2) t = .ok a
      ↔ read (fun _ => timer n) state make (n + 2) t = .ok a := by
  rw [(isRecord _ _ _).eq_ok_iff, (isRecord _ _ _).eq_ok_iff]
  refine exists_congr fun k => and_congr_right fun hk => and_congr_right fun _ => ?_
  obtain rfl : k = n + 1 := by omega
  refine exists_congr fun slots => and_congr_left fun _ => forall_congr' fun f => ?_
  cases f with
  | timers =>
      refine and_congr_right fun _ => forall₂_congr fun u _ => exists_congr fun v => ?_
      exact and_congr_left fun _ => Eq.congr_left (list_succ timer n u)
  | states => exact Iff.rfl

end Timed

/-! ## Machines -/

/-- **Another spelling of a machine**, one change away. -/
def Machine.Respells : Tree → Tree → Prop := Timed.Respells State.Respells

lemma Machine.Respells.keeps {τ : Type} {timer : Reader τ} (hsteady : timer.Steady) {t t' : Tree}
    (h : Machine.Respells t t') : (Machine.read timer).Keeps t t' :=
  Timed.Respells.keeps hsteady State.steady_read (fun _ _ => State.Respells.keeps) h

end Microstep
