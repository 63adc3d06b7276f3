import Microstep.Proofs.MachineRespelling
import Microstep.Proofs.MicroOps

/-!
# Equivalent spellings

What a machine or a program is read as does not depend on how it is spelled (`read_respelling`).
For machines see `Machine.Respells`; programs are put together in the same way, down to their
micro-ops.

A micro-op is tried as one of three records, and a change could make another one of them fit.  It
does not, since no tree is read as two of them: what one of them keeps, the micro-op keeps
(`MicroOp.Respells.keeps`).  The three refuse unknown members.  With one of these a micro-op cannot
be read at all any more, as none of the other two fits instead (`MicroOp.Oversteps.not_takes`), and
so the whole program cannot be read either (`Program.Oversteps.not_takes`).
-/

namespace Microstep

open Json (Reader Shape Tree maxDepth)
open Json.Reader Json.Shape

/-! ## Micro-ops -/

namespace GuardOpening

lemma steady_field (f : Field) : (shape.read f).Steady := by
  cases f with
  | guard => exact steady_bool

/-- Another spelling of the opening of a guard, one change away. -/
def Respells : Tree → Tree → Prop := shape.Respells (fun _ => none) fun _ => emptyRelation

lemma Respells.keeps {t t' : Tree} (h : Respells t t') : GuardOpening.read.Keeps t t' :=
  isRecord.keeps steady_field defaults_none (fun _ _ _ hu => hu.elim) h

end GuardOpening

namespace Compute

lemma steady_field (f : Field) : (shape.read f).Steady := by
  cases f with
  | left => exact Operand.steady_read
  | right => exact Operand.steady_read
  | operator => exact Operator.steady_read
  | countFromInput => exact steady_bool.optional
  | out => exact steady_string

/-- `null` stands for the absent field. -/
def absent : Field → Option Tree
  | .countFromInput => some .null
  | .left | .right | .operator | .out => none

lemma defaults : shape.Defaults Made absent := by
  refine ⟨fun f u hu => ?_, fun slots c h => ?_⟩
  · cases f with
    | countFromInput => exact ⟨none, Option.some.inj hu ▸ rfl⟩
    | _ => cases hu
  · obtain ⟨hleft, hright, hoperator, hcount, hout⟩ := h
    refine ⟨?_, ?_, ?_, Option.getD_or.trans hcount, ?_⟩
    · exact Option.or_eq_some_iff.mpr (Or.inl hleft)
    · exact Option.or_eq_some_iff.mpr (Or.inl hright)
    · exact Option.or_eq_some_iff.mpr (Or.inl hoperator)
    · exact Option.or_eq_some_iff.mpr (Or.inl hout)

/-- Another spelling of a compute, one change away. -/
def Respells : Tree → Tree → Prop := shape.Respells absent fun _ => emptyRelation

lemma Respells.keeps {t t' : Tree} (h : Respells t t') : Compute.read.Keeps t t' :=
  isRecord.keeps steady_field defaults (fun _ _ _ hu => hu.elim) h

end Compute

namespace Branch

variable {κ : Type} {target : Reader κ}

lemma steady_field (h : target.Steady) (f : Field) : ((shape target).read f).Steady := by
  cases f with
  | register => exact steady_string
  | target => exact h

/-- Another spelling of a branch, one change away. -/
def Respells (target : Reader κ) : Tree → Tree → Prop :=
  (shape target).Respells (fun _ => none) fun _ => emptyRelation

lemma Respells.keeps (hsteady : target.Steady) {t t' : Tree} (h : Respells target t t') :
    (Branch.read target).Keeps t t' :=
  (isRecord target).keeps (steady_field hsteady) defaults_none (fun _ _ _ hu => hu.elim) h

end Branch

namespace MicroOp

variable {κ : Type} {target : Reader κ} {t t' : Tree}

lemma steady_read (h : target.Steady) : (MicroOp.read target).Steady := by
  intro t
  refine steadyAt_choice (pairwise_forms target) ?_
  simp only [List.forall_mem_cons, List.not_mem_nil, false_imp_iff, implies_true, and_true]
  exact ⟨(GuardOpening.isRecord.steady GuardOpening.steady_field).map _ t,
    (Compute.isRecord.steady Compute.steady_field).map _ t,
    ((Branch.isRecord target).steady (Branch.steady_field h)).map _ t⟩

/-- **Another spelling of a micro-op**, one change away: of the one that it is read as. -/
def Respells (target : Reader κ) (t t' : Tree) : Prop :=
  (GuardOpening.read.Takes t ∧ GuardOpening.Respells t t')
    ∨ (Compute.read.Takes t ∧ Compute.Respells t t')
    ∨ ((Branch.read target).Takes t ∧ Branch.Respells target t t')

lemma Respells.keeps (hthorough : target.Thorough) (hsteady : target.Steady)
    (h : Respells target t t') : (MicroOp.read target).Keeps t t' := by
  have hthorough := thorough_forms hthorough
  have hexcludes := pairwise_forms target
  rcases h with ⟨htakes, h⟩ | ⟨htakes, h⟩ | ⟨htakes, h⟩
  · exact keeps_choice hthorough hexcludes List.mem_cons_self (takes_map_iff.mpr htakes)
      (h.keeps.map _)
  · exact keeps_choice hthorough hexcludes (List.mem_cons_of_mem _ List.mem_cons_self)
      (takes_map_iff.mpr htakes) (h.keeps.map _)
  · exact keeps_choice hthorough hexcludes
      (List.mem_cons_of_mem _ (List.mem_cons_of_mem _ List.mem_cons_self))
      (takes_map_iff.mpr htakes) ((h.keeps hsteady).map _)

/-- **A micro-op gets one more member**, which the one that it is read as does not know. -/
def Oversteps (target : Reader κ) (t t' : Tree) : Prop :=
  (GuardOpening.read.Takes t ∧ ∃ u, GuardOpening.shape.Adds u t t')
    ∨ (Compute.read.Takes t ∧ ∃ u, Compute.shape.Adds u t t')
    ∨ ((Branch.read target).Takes t ∧ ∃ u, (Branch.shape target).Adds u t t')

/-- What none of the three takes is no micro-op. -/
lemma not_takes_of_forms (hguard : ¬ GuardOpening.read.Takes t) (hcompute : ¬ Compute.read.Takes t)
    (hbranch : ¬ (Branch.read target).Takes t) : ¬ (MicroOp.read target).Takes t := by
  refine not_takes_choice (pairwise_forms target) ?_
  simp only [List.forall_mem_cons, List.not_mem_nil, false_imp_iff, implies_true, and_true,
    takes_map_iff]
  exact ⟨hguard, hcompute, hbranch⟩

/-- **One member too many is not made up for by another form**, since each of the three cannot do
without a field that the others do not know. -/
lemma Oversteps.not_takes (h : Oversteps target t t') : ¬ (MicroOp.read target).Takes t' := by
  rcases h with ⟨htakes, u, h⟩ | ⟨htakes, u, h⟩ | ⟨htakes, u, h⟩
  all_goals obtain ⟨members, members', rfl, rfl, hsub, key, hkey, hmem⟩ := h.exists_obj
  · obtain ⟨w, hw⟩ := GuardOpening.isRecord.exists_mem htakes (f := .guard)
      fun _ _ h => ⟨true, h⟩
    exact not_takes_of_forms (GuardOpening.isRecord.not_takes_of_mem rfl hmem hkey)
      (Compute.isRecord.not_takes_of_mem rfl (hsub hw) rfl)
      ((Branch.isRecord target).not_takes_of_mem rfl (hsub hw) rfl)
  · obtain ⟨w, hw⟩ := Compute.isRecord.exists_mem htakes (f := .left)
      fun _ c h => ⟨c.left, h.1⟩
    exact not_takes_of_forms (GuardOpening.isRecord.not_takes_of_mem rfl (hsub hw) rfl)
      (Compute.isRecord.not_takes_of_mem rfl hmem hkey)
      ((Branch.isRecord target).not_takes_of_mem rfl (hsub hw) rfl)
  · obtain ⟨w, hw⟩ := (Branch.isRecord target).exists_mem htakes (f := .register)
      fun _ b h => ⟨b.1, h.1⟩
    exact not_takes_of_forms (GuardOpening.isRecord.not_takes_of_mem rfl (hsub hw) rfl)
      (Compute.isRecord.not_takes_of_mem rfl (hsub hw) rfl)
      ((Branch.isRecord target).not_takes_of_mem rfl hmem hkey)

end MicroOp

/-! ## Programs -/

namespace Block

/-- What a block is made of. -/
def Made (slots : shape.Slots) (b : Block String) : Prop :=
  slots .start = some b.start ∧ slots .steps = some b.steps

lemma isRecord : shape.IsRecord Made Block.read := by
  refine isRecord_record (by decide) (by rintro ⟨⟩ <;> decide) fun absent slots b => ?_
  simp only [bind_eq_ok_iff, Slots.require_eq_ok_iff, Made]
  constructor
  · rintro ⟨start, hstart, steps, hsteps, ⟨⟩⟩
    exact ⟨hstart, hsteps⟩
  · rintro ⟨hstart, hsteps⟩
    exact ⟨_, hstart, _, hsteps, rfl⟩

lemma steady_step : (OpStep.read Reader.uint32).Steady := (MicroOp.steady_read steady_uint32).list

lemma steady_field (f : Field) : (shape.read f).Steady := by
  cases f with
  | start => exact steady_uint32
  | steps => exact steady_step.list

lemma steady_read : Block.read.Steady := isRecord.steady steady_field

/-- Changes of the parts of a block, its micro-ops being changed as `R` tells. -/
def Parts (R : Tree → Tree → Prop) : Field → Tree → Tree → Prop
  | .start => emptyRelation
  | .steps => Tree.Listwise (Tree.Listwise R)

/-- Another spelling of a block, one change away. -/
def Respells : Tree → Tree → Prop :=
  shape.Respells (fun _ => none) (Parts (MicroOp.Respells Reader.uint32))

/-- A micro-op in a block gets one more member. -/
def Oversteps : Tree → Tree → Prop := shape.Inside (Parts (MicroOp.Oversteps Reader.uint32))

variable {t t' : Tree}

lemma Respells.keeps (h : Respells t t') : Block.read.Keeps t t' := by
  refine isRecord.keeps steady_field defaults_none (fun f u u' hu => ?_) h
  cases f with
  | start => exact hu.elim
  | steps =>
      refine keeps_list steady_step (hu.mono fun _ _ hstep => ?_)
      refine keeps_list (MicroOp.steady_read steady_uint32) (hstep.mono fun _ _ hop => ?_)
      exact MicroOp.Respells.keeps thorough_uint32 steady_uint32 hop

lemma Oversteps.not_takes (h : Oversteps t t') : ¬ Block.read.Takes t' := by
  refine isRecord.not_takes_of_inside (fun f u u' hu => ?_) h
  cases f with
  | start => exact hu.elim
  | steps =>
      refine not_takes_list (hu.mono fun _ _ hstep => ?_)
      exact not_takes_list (hstep.mono fun _ _ => MicroOp.Oversteps.not_takes)

end Block

namespace ProgramState

/-- What a program state is made of. -/
def Made (slots : shape.Slots) (s : ProgramState String) : Prop :=
  slots .address = some s.address ∧ slots .blocks = some s.blocks

lemma isRecord : shape.IsRecord Made ProgramState.read := by
  refine isRecord_record (by decide) (by rintro ⟨⟩ <;> decide) fun absent slots s => ?_
  simp only [bind_eq_ok_iff, Slots.require_eq_ok_iff, Made]
  constructor
  · rintro ⟨address, haddress, blocks, hblocks, ⟨⟩⟩
    exact ⟨haddress, hblocks⟩
  · rintro ⟨haddress, hblocks⟩
    exact ⟨_, haddress, _, hblocks, rfl⟩

lemma steady_field (f : Field) : (shape.read f).Steady := by
  cases f with
  | address => exact steady_uint32
  | blocks => exact Block.steady_read.list

lemma steady_read : ProgramState.read.Steady := isRecord.steady steady_field

/-- Changes of the parts of a program state, its blocks being changed as `R` tells. -/
def Parts (R : Tree → Tree → Prop) : Field → Tree → Tree → Prop
  | .address => emptyRelation
  | .blocks => Tree.Listwise R

/-- Another spelling of a program state, one change away. -/
def Respells : Tree → Tree → Prop := shape.Respells (fun _ => none) (Parts Block.Respells)

/-- A micro-op in a program state gets one more member. -/
def Oversteps : Tree → Tree → Prop := shape.Inside (Parts Block.Oversteps)

variable {t t' : Tree}

lemma Respells.keeps (h : Respells t t') : ProgramState.read.Keeps t t' := by
  refine isRecord.keeps steady_field defaults_none (fun f u u' hu => ?_) h
  cases f with
  | address => exact hu.elim
  | blocks => exact keeps_list Block.steady_read (hu.mono fun _ _ => Block.Respells.keeps)

lemma Oversteps.not_takes (h : Oversteps t t') : ¬ ProgramState.read.Takes t' := by
  refine isRecord.not_takes_of_inside (fun f u u' hu => ?_) h
  cases f with
  | address => exact hu.elim
  | blocks => exact not_takes_list (hu.mono fun _ _ => Block.Oversteps.not_takes)

end ProgramState

namespace Program

variable {τ : Type} {timer : Reader τ} {t t' : Tree}

/-- **Another spelling of a program**, one change away. -/
def Respells : Tree → Tree → Prop := Timed.Respells ProgramState.Respells

/-- **A micro-op in a program gets one more member**, which it does not know. -/
def Oversteps : Tree → Tree → Prop :=
  (Timed.shape Tree.value Tree.value).Inside (Timed.Parts ProgramState.Oversteps)

lemma Respells.keeps (hsteady : timer.Steady) (h : Respells t t') :
    (Program.read timer).Keeps t t' :=
  Timed.Respells.keeps hsteady ProgramState.steady_read (fun _ _ => ProgramState.Respells.keeps) h

lemma Oversteps.not_takes (h : Oversteps t t') : ¬ (Program.read timer).Takes t' := by
  have hkeys : (Timed.shape timer ProgramState.read).Inside (Timed.Parts ProgramState.Oversteps)
      t t' :=
    Shape.Inside.of_keys (s := Timed.shape Tree.value Tree.value) rfl rfl h
  refine (Timed.isRecord timer ProgramState.read Program.mk).not_takes_of_inside
    (fun f u u' hu => ?_) hkeys
  cases f with
  | timers => exact hu.elim
  | states => exact not_takes_list (hu.mono fun _ _ => ProgramState.Oversteps.not_takes)

end Program

/-! ## Any number of changes -/

/-- **Equivalent spellings are read as the same.**  From a tree that is read as a machine or a
program get another one by any number of changes, each of them somewhere in the tree: members of a
record or an operation change places, a member that makes sense is added to a record or an operation
that does not know its key and does not mind, or the array of its fields takes the place of a
record.  If the tree that comes out is not nested too deeply, it is read as the same machine or
program, no matter how deeply those in between were nested.  But a tree in which a micro-op has got
a member that it does not know cannot be read as a program. -/
theorem read_respelling {τ : Type} (timer : Reader τ) :
    (∀ v v' m, Machine.read timer maxDepth v = .ok m → Relation.ReflTransGen Machine.Respells v v' →
        v'.depth ≤ maxDepth → Machine.read timer maxDepth v' = .ok m)
      ∧ (∀ v v' p, Program.read timer maxDepth v = .ok p →
        Relation.ReflTransGen Program.Respells v v' →
        v'.depth ≤ maxDepth → Program.read timer maxDepth v' = .ok p)
      ∧ ∀ v v', Program.Oversteps v v' → ¬ (Program.read timer).Takes v' := by
  -- Timers are always read with 125 levels left, so their reader can be taken for a steady one.
  have hsteady : Reader.Steady fun _ => timer 125 := steady_of_eq fun _ _ _ => rfl
  refine ⟨fun v v' m hm hv hdepth => ?_, fun v v' p hp hv hdepth => ?_, fun v v' => ?_⟩
  · have hkeeps := keeps_of_reflTransGen (fun _ _ h => Machine.Respells.keeps hsteady h) hv
    have hm' := (Timed.read_eq_ok_iff_fixed 125).mp hm
    refine (Timed.read_eq_ok_iff_fixed 125).mpr ?_
    exact hkeeps.read_of_depth_le (Timed.steady_read hsteady State.steady_read) hm' hdepth
  · have hkeeps := keeps_of_reflTransGen (fun _ _ h => Program.Respells.keeps hsteady h) hv
    have hp' := (Timed.read_eq_ok_iff_fixed 125).mp hp
    refine (Timed.read_eq_ok_iff_fixed 125).mpr ?_
    exact hkeeps.read_of_depth_le (Timed.steady_read hsteady ProgramState.steady_read) hp' hdepth
  · exact Program.Oversteps.not_takes

/-! A machine with one transition, which goes round if `x < y`, and a program with one compute. -/

/-- A member that nothing knows. -/
def note : Option String × Tree := (some "note", .null)

/-- The members of `x < y`. -/
def less : List (Option String × Tree) :=
  [(some "left", .str (some "x")), (some "right", .str (some "y")),
    (some "operator", .str (some "<"))]

/-- The transition, with its condition. -/
def roundTree (condition : Tree) : Tree :=
  .obj [(some "goto", .str (some "a")), (some "condition", condition)]

/-- The machine, with its transition. -/
def loopTree (transition : Tree) : Tree :=
  .obj [(some "states", .arr
    [.obj [(some "transitions", .arr [transition]), (some "state", .str (some "a"))]])]

/-- The machine with arrays for its state and its transition, with the members of the condition the
other way round, and with a note on top and in the condition. -/
def notedLoop : Tree :=
  .obj [note, (some "states", .arr [.arr [.str (some "a"), .arr [],
    .arr [.arr [.obj (note :: less.reverse), .str (some "a")]]]])]

/-- The machine that both are read as. -/
def loopMachine : Machine Json :=
  { timers := []
    states :=
      [ { id := .symbolic "a"
          statements := []
          transitions :=
            [ { condition := some (.node (.leaf (.name "x")) .lt (.leaf (.name "y")))
                target := .symbolic "a" } ] } ] }

lemma reflTransGen_notedLoop :
    Relation.ReflTransGen Machine.Respells (loopTree (roundTree (.obj less))) notedLoop := by
  have hreadable : Tree.Readable .null := ⟨0, Tree.sound_null 0⟩
  -- From the inside out: first the condition, then the transition, the state and the machine.
  have hreverse : Expr.Respells (.obj less) (.obj less.reverse) :=
    .node (.permute (List.reverse_perm less).symm)
  have hnote : Expr.Respells (.obj less.reverse) (.obj (note :: less.reverse)) :=
    .node (.extend rfl hreadable (.intro [] _ rfl))
  have htransition : ∀ c, Transition.Respells (roundTree c) (.arr [c, .str (some "a")]) := fun _ =>
    Or.inr (Or.inl ⟨rfl⟩)
  have hstate : ∀ t, State.Respells
      (.obj [(some "transitions", .arr [t]), (some "state", .str (some "a"))])
      (.arr [.str (some "a"), .arr [], .arr [t]]) := fun _ =>
    Or.inr (Or.inl ⟨rfl⟩)
  have hmachine : ∀ t, Machine.Respells (.obj [(some "states", t)])
      (.obj [note, (some "states", t)]) := fun _ =>
    Or.inl (.extend rfl hreadable (.intro [] _ rfl))
  have hinState : ∀ {t t'}, State.Respells t t' →
      Machine.Respells (.obj [(some "states", .arr [t])]) (.obj [(some "states", .arr [t'])]) :=
    fun h => Or.inr (Or.inr (.member [] [] (f := Timed.Field.states) rfl (.intro [] [] h)))
  have hinTransition : ∀ {t t'}, Transition.Respells t t' →
      Machine.Respells (loopTree t) (loopTree t') := fun h => hinState
    (Or.inr (Or.inr (.member [] [_] (f := State.Field.transitions) rfl (.intro [] [] h))))
  have hinCondition : ∀ {t t'}, Expr.Respells t t' →
      Machine.Respells (loopTree (roundTree t)) (loopTree (roundTree t')) := fun h => hinTransition
    (Or.inr (Or.inr (.member [_] [] (f := Transition.Field.condition) rfl h)))
  exact .head (hinCondition hreverse) (.head (hinCondition hnote) (.head (hinTransition
    (htransition _)) (.head (hinState (hstate _)) (.single (hmachine _)))))

/-- The members of the compute. -/
def plus : List (Option String × Tree) :=
  [(some "out", .str (some "x")), (some "left", .str (some "x")),
    (some "right", .str (some "y")), (some "operator", .str (some "+"))]

/-- The compute as an array. -/
def plusArray : Tree :=
  .arr [.str (some "x"), .str (some "y"), .str (some "+"), .null, .str (some "x")]

/-- The program, with its micro-op. -/
def stepTree (op : Tree) : Tree :=
  .obj [(some "states", .arr [.obj
    [ (some "state", .num ⟨false, ['0'], [], none⟩),
      (some "statements", .arr [.obj
        [ (some "start", .num ⟨false, ['0'], [], none⟩),
          (some "operations", .arr [.arr [op]]) ]]) ]])]

/-- The program that both are read as. -/
def stepProgram : Program String Json :=
  { timers := []
    states := [{ address := 0, blocks := [{ start := 0, steps := [[.compute
      { left := .name "x", right := .name "y", operator := .add, countFromInput := none,
        out := "x" }]] }] }] }

lemma takes_plus : Compute.read.Takes (.obj plus) :=
  ⟨1, ⟨.name "x", .name "y", .add, none, "x"⟩, by decide +kernel⟩

lemma respells_stepTree : Program.Respells (stepTree (.obj plus)) (stepTree plusArray) := by
  have hop : MicroOp.Respells Reader.uint32 (.obj plus) plusArray :=
    Or.inr (Or.inl ⟨takes_plus, Or.inr (Or.inl ⟨rfl⟩)⟩)
  refine Or.inr (Or.inr (.member [] [] (f := Timed.Field.states) rfl (.intro [] [] ?_)))
  refine Or.inr (Or.inr (.member [_] [] (f := ProgramState.Field.blocks) rfl (.intro [] [] ?_)))
  exact Or.inr (Or.inr (.member [_] [] (f := Block.Field.steps) rfl
    (.intro [] [] (.intro [] [] hop))))

lemma oversteps_stepTree :
    Program.Oversteps (stepTree (.obj plus)) (stepTree (.obj (note :: plus))) := by
  have hop : MicroOp.Oversteps Reader.uint32 (.obj plus) (.obj (note :: plus)) :=
    Or.inr (Or.inl ⟨takes_plus, .null, .intro [] plus rfl⟩)
  refine .member [] [] (f := Timed.Field.states) rfl (.intro [] [] ?_)
  refine .member [_] [] (f := ProgramState.Field.blocks) rfl (.intro [] [] ?_)
  exact .member [_] [] (f := Block.Field.steps) rfl (.intro [] [] (.intro [] [] hop))

theorem read_respelling_samples :
    (Machine.read Tree.value maxDepth (loopTree (roundTree (.obj less))) = .ok loopMachine
        ∧ Relation.ReflTransGen Machine.Respells (loopTree (roundTree (.obj less))) notedLoop
        ∧ notedLoop.depth ≤ maxDepth ∧ Machine.read Tree.value maxDepth notedLoop = .ok loopMachine)
      ∧ (Program.read Tree.value maxDepth (stepTree (.obj plus)) = .ok stepProgram
        ∧ Program.Respells (stepTree (.obj plus)) (stepTree plusArray)
        ∧ (stepTree plusArray).depth ≤ maxDepth
        ∧ Program.read Tree.value maxDepth (stepTree plusArray) = .ok stepProgram)
      ∧ Program.Oversteps (stepTree (.obj plus)) (stepTree (.obj (note :: plus)))
      ∧ ¬ (Program.read Tree.value).Takes (stepTree (.obj (note :: plus))) := by
  obtain ⟨hmachine, hprogram, hoversteps⟩ := read_respelling Tree.value
  have hloop : Machine.read Tree.value maxDepth (loopTree (roundTree (.obj less)))
      = .ok loopMachine := by decide +kernel
  have hstep : Program.read Tree.value maxDepth (stepTree (.obj plus)) = .ok stepProgram := by
    decide +kernel
  have hdepth : notedLoop.depth ≤ maxDepth := by decide
  have hdepth' : (stepTree plusArray).depth ≤ maxDepth := by decide
  refine ⟨⟨hloop, reflTransGen_notedLoop, hdepth, ?_⟩, ⟨hstep, respells_stepTree, hdepth', ?_⟩,
    oversteps_stepTree, hoversteps _ _ oversteps_stepTree⟩
  · exact hmachine _ _ _ hloop reflTransGen_notedLoop hdepth
  · exact hprogram _ _ _ hstep (.single respells_stepTree) hdepth'

end Microstep
