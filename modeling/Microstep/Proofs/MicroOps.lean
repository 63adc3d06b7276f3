import Microstep.Proofs.Json.Forms
import Microstep.Wire.Program

/-!
# Telling micro-ops apart

A micro-op is written without saying which of the three it is, so reading one means to try the
opening of a guard, a compute and a branch in turn.  The order is of no consequence: no tree, be it
an object with repeated or unknown members, an array of any length or anything else, is read as two
of them (`MicroOp.read_unambiguous`).

As objects they are told apart by their keys.  Each of the three knows only its own fields, a
compute cannot do without `out` and a branch cannot do without `goto`, and neither of these is a
field of another.  As arrays they are told apart by their lengths: those two fields are the last
ones, so a compute has five elements, a branch two and the opening of a guard one.  That a compute
may leave out its fourth field makes no array shorter, since the fifth would be missing then.
-/

namespace Microstep

open Json (Reader Shape Tree ReadFault)
open Json.Reader Json.Shape

/-! ## The three records -/

namespace GuardOpening

/-- What the opening of a guard is made of. -/
def Made (slots : shape.Slots) (_ : Unit) : Prop := slots .guard = some true

lemma isRecord : shape.IsRecord Made GuardOpening.read := by
  refine isRecord_record (by decide) (by rintro ⟨⟩; decide) fun absent slots _ => ?_
  refine ⟨fun h => ?_, fun h => ?_⟩
  · obtain ⟨guard, hguard, h⟩ := bind_eq_ok_iff.mp h
    cases guard with
    | false => cases h
    | true => exact Slots.require_eq_ok_iff.mp hguard
  · exact bind_eq_ok_iff.mpr ⟨true, Slots.require_eq_ok_iff.mpr h, rfl⟩

lemma thorough_read : GuardOpening.read.Thorough := by
  refine isRecord.thorough rfl ?_
  rintro ⟨⟩
  exact thorough_bool

end GuardOpening

namespace Compute

/-- What a compute is made of. -/
def Made (slots : shape.Slots) (c : Compute String) : Prop :=
  slots .left = some c.left ∧ slots .right = some c.right ∧ slots .operator = some c.operator
    ∧ (slots .countFromInput).getD none = c.countFromInput ∧ slots .out = some c.out

lemma isRecord : shape.IsRecord Made Compute.read := by
  refine isRecord_record (by decide) (by rintro ⟨⟩ <;> decide) fun absent slots c => ?_
  simp only [bind_eq_ok_iff, Slots.require_eq_ok_iff, Made]
  constructor
  · rintro ⟨left, hleft, right, hright, operator, hoperator, out, hout, h⟩
    cases h
    exact ⟨hleft, hright, hoperator, rfl, hout⟩
  · rintro ⟨hleft, hright, hoperator, hcount, hout⟩
    exact ⟨_, hleft, _, hright, _, hoperator, _, hout, by rw [hcount]; rfl⟩

lemma thorough_read : Compute.read.Thorough := by
  refine isRecord.thorough rfl ?_
  rintro (_ | _ | _ | _ | _)
  · exact thorough_choice _ _
  · exact thorough_choice _ _
  · exact thorough_string.map _
  · exact thorough_bool.optional
  · exact thorough_string

/-- A compute has the field `out`, and has it behind four others. -/
lemma excludes_guardOpening : Compute.read.Excludes GuardOpening.read :=
  isRecord.excludes GuardOpening.isRecord rfl (f := .out) (i := 4) rfl
    (fun _ c h => ⟨c.out, h.2.2.2.2⟩) rfl (by decide)

end Compute

namespace Branch

variable {κ : Type}

/-- What a branch is made of. -/
def Made (target : Reader κ) (slots : (shape target).Slots) (b : String × κ) : Prop :=
  slots .register = some b.1 ∧ slots .target = some b.2

lemma isRecord (target : Reader κ) :
    (shape target).IsRecord (Made target) (Branch.read target) := by
  refine isRecord_record (by simp [shape]) (by rintro ⟨⟩ <;> simp [shape]) fun absent slots b => ?_
  simp only [bind_eq_ok_iff, Slots.require_eq_ok_iff, Made]
  constructor
  · rintro ⟨register, hregister, goto, hgoto, h⟩
    cases h
    exact ⟨hregister, hgoto⟩
  · rintro ⟨hregister, hgoto⟩
    exact ⟨_, hregister, _, hgoto, rfl⟩

lemma thorough_read {target : Reader κ} (h : target.Thorough) : (Branch.read target).Thorough := by
  refine (isRecord target).thorough rfl ?_
  rintro (_ | _)
  · exact thorough_string
  · exact h

/-- A branch has the field `goto`, and has it behind another. -/
lemma excludes_guardOpening (target : Reader κ) : (Branch.read target).Excludes GuardOpening.read :=
  (isRecord target).excludes GuardOpening.isRecord rfl (f := .target) (i := 1) rfl
    (fun _ b h => ⟨b.2, h.2⟩) rfl (by decide)

/-- A compute has the field `out`, and has it behind two others. -/
lemma compute_excludes (target : Reader κ) : Compute.read.Excludes (Branch.read target) :=
  Compute.isRecord.excludes (isRecord target) rfl (f := .out) (i := 4) rfl
    (fun _ c h => ⟨c.out, h.2.2.2.2⟩) rfl (by simp [shape])

end Branch

/-! ## Micro-ops -/

namespace MicroOp

variable {κ : Type} {target : Reader κ}

/-- The forms of a micro-op, in the order in which they are tried. -/
def forms (target : Reader κ) : List (Reader (MicroOp String κ)) :=
  [ Reader.map (fun _ => .openGuard) GuardOpening.read,
    Reader.map .compute Compute.read,
    Reader.map (fun b => .branch b.1 b.2) (Branch.read target) ]

lemma read_eq_choice (target : Reader κ) :
    MicroOp.read target = Reader.choice "MicroOp" (forms target) := rfl

lemma pairwise_forms (target : Reader κ) : (forms target).Pairwise Excludes := by
  simp only [forms, List.pairwise_cons, List.forall_mem_cons, List.not_mem_nil, false_imp_iff,
    implies_true, and_true, List.Pairwise.nil]
  exact ⟨⟨Compute.excludes_guardOpening.symm.map _ _,
    (Branch.excludes_guardOpening target).symm.map _ _⟩, (Branch.compute_excludes target).map _ _⟩

lemma thorough_forms (h : target.Thorough) : ∀ r ∈ forms target, r.Thorough := by
  simp only [forms, List.forall_mem_cons, List.not_mem_nil, false_imp_iff, implies_true, and_true]
  exact ⟨GuardOpening.thorough_read.map _, Compute.thorough_read.map _,
    (Branch.thorough_read h).map _⟩

/-- **What is read as a micro-op** is what is read as one of the three. -/
lemma read_eq_ok_iff (h : target.Thorough) {d : Nat} {t : Tree} {op : MicroOp String κ} :
    MicroOp.read target d t = .ok op ↔
      (op = .openGuard ∧ GuardOpening.read d t = .ok ())
        ∨ (∃ c, op = .compute c ∧ Compute.read d t = .ok c)
        ∨ ∃ register goto, op = .branch register goto
          ∧ Branch.read target d t = .ok (register, goto) := by
  rw [read_eq_choice, choice_eq_ok_iff_of_thorough (thorough_forms h) (pairwise_forms target)]
  simp only [forms, List.exists_mem_cons_iff, List.not_mem_nil, false_and, exists_false, or_false,
    Reader.map, map_eq_ok_iff, Prod.exists]
  refine or_congr ?_ (or_congr ?_ ?_)
  · constructor
    · rintro ⟨⟨⟩, hread, rfl⟩
      exact ⟨rfl, hread⟩
    · rintro ⟨rfl, hread⟩
      exact ⟨(), hread, rfl⟩
  · simp only [eq_comm, and_comm]
  · simp only [eq_comm, and_comm]

/-- **Micro-ops with targets read by `target` are told apart.** -/
structure Unambiguous (target : Reader κ) : Prop where
  /-- At most one of the three readers takes a tree. -/
  atMostOne : ∀ d t, [(GuardOpening.read d t).isOk, (Compute.read d t).isOk,
    (Branch.read target d t).isOk].count true ≤ 1
  /-- The forms may be tried in any order. -/
  anyOrder : ∀ order, order.Perm (forms target) → ∀ d t,
    Reader.choice "MicroOp" order d t = MicroOp.read target d t
  /-- A tree is taken as a micro-op if and only if one of the three readers takes it. -/
  accepts : ∀ d t, (MicroOp.read target d t).isOk
    = ((GuardOpening.read d t).isOk || (Compute.read d t).isOk || (Branch.read target d t).isOk)
  /-- What it is read as is what that reader reads. -/
  reads : ∀ d t op, MicroOp.read target d t = .ok op ↔
    (op = .openGuard ∧ GuardOpening.read d t = .ok ())
      ∨ (∃ c, op = .compute c ∧ Compute.read d t = .ok c)
      ∨ ∃ register goto, op = .branch register goto
        ∧ Branch.read target d t = .ok (register, goto)

lemma count_isOk_le_one (target : Reader κ) (d : Nat) (t : Tree) :
    [(GuardOpening.read d t).isOk, (Compute.read d t).isOk,
      (Branch.read target d t).isOk].count true ≤ 1 := by
  have hcompute := Compute.excludes_guardOpening.isOk_and d t
  have hbranch := (Branch.excludes_guardOpening target).isOk_and d t
  have hboth := (Branch.compute_excludes target).isOk_and d t
  generalize (GuardOpening.read d t).isOk = guard at *
  generalize (Compute.read d t).isOk = compute at *
  generalize (Branch.read target d t).isOk = branch at *
  revert guard compute branch
  decide

lemma isOk_read (h : target.Thorough) (d : Nat) (t : Tree) :
    (MicroOp.read target d t).isOk
      = ((GuardOpening.read d t).isOk || (Compute.read d t).isOk
        || (Branch.read target d t).isOk) := by
  rw [Bool.eq_iff_iff]
  simp only [Bool.or_eq_true, isOk_iff_exists, read_eq_ok_iff h]
  constructor
  · rintro ⟨op, ⟨-, hread⟩ | ⟨c, -, hread⟩ | ⟨register, goto, -, hread⟩⟩
    · exact Or.inl (Or.inl ⟨(), hread⟩)
    · exact Or.inl (Or.inr ⟨c, hread⟩)
    · exact Or.inr ⟨(register, goto), hread⟩
  · rintro ((⟨_, hread⟩ | ⟨c, hread⟩) | ⟨b, hread⟩)
    · exact ⟨.openGuard, Or.inl ⟨rfl, hread⟩⟩
    · exact ⟨.compute c, Or.inr (Or.inl ⟨c, rfl, hread⟩)⟩
    · exact ⟨.branch b.1 b.2, Or.inr (Or.inr ⟨b.1, b.2, rfl, hread⟩)⟩

lemma unambiguous (h : target.Thorough) : Unambiguous target where
  atMostOne := count_isOk_le_one target
  anyOrder order hperm d t := by
    rw [read_eq_choice, choice_perm (pairwise_forms target) hperm.symm]
  accepts := isOk_read h
  reads _ _ _ := read_eq_ok_iff h

/-- **Reading a micro-op is unambiguous**, with addresses and with state ids for targets.  Of any
tree, however many levels are left, at most one of the opening of a guard, a compute and a branch
can be read.  So the order in which they are tried does not matter, and a tree is read as a micro-op
if and only if it is read as one of the three. -/
theorem read_unambiguous : Unambiguous Reader.uint32 ∧ Unambiguous StateId.read :=
  ⟨unambiguous thorough_uint32, unambiguous (thorough_choice _ _)⟩

end MicroOp

end Microstep
