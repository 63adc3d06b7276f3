import Microstep.Check
import Microstep.Lowering.Basic
import Microstep.Proofs.Sequencing

/-!
# Faults and widths of blocks

Two things about the blocks of a state can be read off the state itself, whatever the registers are
called: whether there are any, and how wide they are.

**Faults.**  `State.faults` lists what is malformed in a state the way the lowering tells it.  The
lowering of a state fails with the first of them (`State.bodies_failsFirst`).  The check tells the
same malformations in the same order, but does not show a compound increment
(`State.faults_map_plain`).

**Widths.**  A statement is two op-steps wide, and so is a jump without a condition.  A jump under a
condition is two wider than the operations of its condition, but at least three.  The blocks of a
state have exactly these widths (`State.map_length_bodies`).
-/

namespace Microstep

variable {ρ : Type}

/-! ## Faults -/

/-- A malformation without what was found. -/
def Malformation.plain : Malformation → Malformation
  | .emptyName => .emptyName
  | .compoundIncrement counter _ => .compoundIncrement counter none

/-- What is malformed in a statement, with the amount shown if it is compound. -/
def Statement.faults (s : Statement) : List Malformation :=
  (if s.out = "" then [.emptyName] else [])
    ++ match s.amount with
      | .leaf o => o.malformations
      | .node l op r => [.compoundIncrement s.out (some (.node l op r))]

/-- What is malformed in a state: its statements, then its transitions. -/
def State.faults (s : State) : List Malformation :=
  s.statements.flatMap Statement.faults ++ s.transitions.flatMap Transition.malformations

lemma Operand.map_plain_malformations (o : Operand String) :
    o.malformations.map Malformation.plain = o.malformations := by
  unfold Operand.malformations
  split_ifs <;> rfl

/-- The check finds in a statement what the lowering finds, but does not show the amount. -/
lemma Statement.faults_map_plain (s : Statement) :
    s.faults.map Malformation.plain = s.malformations := by
  unfold Statement.faults Statement.malformations
  rw [List.map_append]
  congr 1
  · split_ifs <;> rfl
  · cases s.amount with
    | leaf o => exact o.map_plain_malformations
    | node l op r => rfl

lemma Transition.map_plain_malformations (t : Transition) :
    t.malformations.map Malformation.plain = t.malformations := by
  unfold Transition.malformations
  cases t.condition with
  | none => rfl
  | some c =>
      rw [List.map_flatMap]
      exact congrArg (c.leaves.flatMap ·) (funext Operand.map_plain_malformations)

/-- **The check and the lowering see the same malformations.** -/
theorem State.faults_map_plain (s : State) :
    s.faults.map Malformation.plain
      = s.statements.flatMap Statement.malformations
        ++ s.transitions.flatMap Transition.malformations := by
  rw [State.faults, List.map_append, List.map_flatMap, List.map_flatMap]
  congr 1
  · exact congrArg (s.statements.flatMap ·) (funext Statement.faults_map_plain)
  · exact congrArg (s.transitions.flatMap ·) (funext Transition.map_plain_malformations)

/-- The op-steps of a statement that is in order: the guard is opened, and multiplied with the
amount into the signal of the counter. -/
def Statement.pulseSteps (scheme : RegisterScheme ρ) (raised : List String) (counter : String)
    (amount : Operand String) : Body ρ :=
  [ [.openGuard],
    [.compute
      { left := .name scheme.guard
        right := amount.map (scheme.read raised)
        operator := .mul
        countFromInput := none
        out := scheme.signal counter }] ]

/-- A statement has a body exactly when its counter has a name and its amount is an operand that is
not a nameless variable. -/
lemma Statement.body_eq_ok_iff {scheme : RegisterScheme ρ} {raised : List String} {s : Statement}
    {body : Body ρ} :
    s.body scheme raised = .ok body ↔
      s.out ≠ "" ∧ ∃ o, s.amount = .leaf o ∧ o.isNameless = false
        ∧ body = Statement.pulseSteps scheme raised s.out o := by
  unfold Statement.body
  constructor
  · intro h
    split_ifs at h with hout
    cases hamount : s.amount with
    | node l op r =>
        rw [hamount] at h
        cases h
    | leaf o =>
        simp only [hamount] at h
        split_ifs at h with hname
        exact ⟨hout, o, rfl, Bool.eq_false_of_not_eq_true hname, (Except.ok.inj h).symm⟩
  · rintro ⟨hout, o, hamount, hname, rfl⟩
    rw [if_neg hout, hamount]
    simp only [hname]
    rfl

lemma Statement.body_failsFirst (scheme : RegisterScheme ρ) (raised : List String)
    (s : Statement) : FailsFirst (s.body scheme raised) s.faults := by
  unfold Statement.body Statement.faults
  by_cases hout : s.out = ""
  · rw [if_pos hout, if_pos hout]
    exact rfl
  · rw [if_neg hout, if_neg hout, List.nil_append]
    cases s.amount with
    | node l op r => exact rfl
    | leaf o =>
        simp only [Operand.malformations]
        split_ifs with hname
        · exact rfl
        · exact FailsFirst.of_ok _

lemma Statement.bodies_failsFirst (scheme : RegisterScheme ρ) :
    ∀ (statements : List Statement) (raised : List String),
      FailsFirst (Statement.bodies scheme raised statements) (statements.flatMap Statement.faults)
  | [], _ => FailsFirst.of_ok []
  | s :: rest, raised => by
      rw [Statement.bodies, List.flatMap_cons]
      refine (s.body_failsFirst scheme raised).bind fun body _ => ?_
      exact (Statement.bodies_failsFirst scheme rest (s.out :: raised)).bind_pure

/-- All operands of a condition are malformed in the same way, so the first that is nameless can be
found by looking for any. -/
lemma head?_flatMap_malformations (operands : List (Operand String)) :
    (operands.flatMap Operand.malformations).head?
      = if operands.any Operand.isNameless then some .emptyName else none := by
  induction operands with
  | nil => rfl
  | cons o rest ih =>
      rw [List.flatMap_cons, List.any_cons]
      cases hname : o.isNameless with
      | true => simp [Operand.malformations, hname]
      | false => simpa [Operand.malformations, hname] using ih

lemma Transition.body_failsFirst (scheme : RegisterScheme ρ) (raised : List String)
    (t : Transition) : FailsFirst (t.body scheme raised) t.malformations := by
  unfold Transition.body Transition.malformations
  cases t.condition with
  | none => exact FailsFirst.of_ok _
  | some c =>
      have hhead := head?_flatMap_malformations c.leaves
      dsimp only
      split_ifs at hhead ⊢ with hname
      · have h : FailsFirst (.error .emptyName : Except Malformation (Body ρ)) [.emptyName] := rfl
        exact h.congr hhead.symm
      · exact (FailsFirst.of_ok _).congr hhead.symm

/-- **A state is lowered unless something in it is malformed**, and then the first malformation is
told. -/
theorem State.bodies_failsFirst (scheme : RegisterScheme ρ) (s : State) :
    FailsFirst (s.bodies scheme) s.faults := by
  unfold State.bodies State.faults
  refine (Statement.bodies_failsFirst scheme s.statements []).bind fun statements _ => ?_
  refine FailsFirst.bind_pure (FailsFirst.mapM fun t _ => ?_)
  exact t.body_failsFirst scheme _

/-! ## Widths -/

/-- How many operations an expression has. -/
def Expr.operations : Expr → Nat
  | .leaf _ => 0
  | .node l _ r => l.operations + r.operations + 1

/-- How wide the block of a transition is. -/
def Transition.width (t : Transition) : Nat :=
  match t.condition with
  | none => 2
  | some c => 2 + max 1 c.operations

/-- How wide the blocks of a state are, in order. -/
def State.blockWidths (s : State) : List Nat :=
  s.statements.map (fun _ => 2) ++ s.transitions.map Transition.width

/-- **The width of a state**, as its source tells it. -/
def State.width (s : State) : Nat := s.blockWidths.sum

/-- What matters of a state when it is placed. -/
def State.extent (s : State) : Extent := { id := s.id, width := s.width }

lemma Expr.length_computes_reduce (scheme : RegisterScheme ρ) (read : String → ρ) :
    ∀ (e : Expr) (issued : Nat), (e.reduce scheme read issued).computes.length = e.operations
  | .leaf _, _ => rfl
  | .node l op r, issued => by
      have hl := l.length_computes_reduce scheme read issued
      have hr := r.length_computes_reduce scheme read (l.reduce scheme read issued).issued
      simp only [Expr.reduce, Reduction.combine, Reduction.OfNode.toReduction, Expr.operations,
        List.length_append, List.length_cons, List.length_nil, hl, hr]

lemma Transition.length_conditional (scheme : RegisterScheme ρ) (raised : List String)
    (target : StateId) (c : Expr) :
    (Transition.conditional scheme raised target c).length = 2 + max 1 c.operations := by
  cases c with
  | leaf o => rfl
  | node l op r =>
      have hl := l.length_computes_reduce scheme (scheme.read raised) 0
      have hr := r.length_computes_reduce scheme (scheme.read raised)
        (l.reduce scheme (scheme.read raised) 0).issued
      simp only [Transition.conditional, Transition.gated, Reduction.combine, List.length_append,
        List.length_map, List.length_cons, List.length_nil, hl, hr, Expr.operations]
      omega

/-- A transition has a body exactly when its condition names all its variables. -/
lemma Transition.body_eq_ok_iff {scheme : RegisterScheme ρ} {raised : List String}
    {t : Transition} {body : Body ρ} :
    t.body scheme raised = .ok body ↔
      (t.condition = none ∧ body = [[.openGuard], [.branch scheme.guard t.target]])
        ∨ ∃ c, t.condition = some c ∧ c.leaves.any Operand.isNameless = false
            ∧ body = Transition.conditional scheme raised t.target c := by
  unfold Transition.body
  constructor
  · intro h
    cases hcond : t.condition with
    | none =>
        rw [hcond] at h
        exact Or.inl ⟨rfl, (Except.ok.inj h).symm⟩
    | some c =>
        simp only [hcond] at h
        split_ifs at h with hname
        exact Or.inr ⟨c, rfl, Bool.eq_false_of_not_eq_true hname, (Except.ok.inj h).symm⟩
  · rintro (⟨hcond, rfl⟩ | ⟨c, hcond, hname, rfl⟩)
    · rw [hcond]
    · rw [hcond]
      simp only [hname]
      rfl

lemma Transition.length_body {scheme : RegisterScheme ρ} {raised : List String} {t : Transition}
    {body : Body ρ} (h : t.body scheme raised = .ok body) : body.length = t.width := by
  rw [Transition.body_eq_ok_iff] at h
  unfold Transition.width
  rcases h with ⟨hnone, rfl⟩ | ⟨c, hsome, _, rfl⟩
  · rw [hnone]
    rfl
  · rw [hsome]
    exact Transition.length_conditional scheme raised t.target c

lemma Statement.map_length_bodies {scheme : RegisterScheme ρ} :
    ∀ {statements : List Statement} {raised : List String} {bodies : List (Body ρ)},
      Statement.bodies scheme raised statements = .ok bodies →
        bodies.map List.length = statements.map fun _ => 2
  | [], _, bodies, h => by
      cases h
      rfl
  | s :: rest, raised, bodies, h => by
      simp only [Statement.bodies, bind_eq_ok_iff] at h
      obtain ⟨body, hbody, others, hothers, h⟩ := h
      obtain ⟨_, o, _, _, rfl⟩ := Statement.body_eq_ok_iff.mp hbody
      cases h
      rw [List.map_cons, List.map_cons, Statement.map_length_bodies hothers]
      rfl

lemma Transition.map_length_bodies {scheme : RegisterScheme ρ} {raised : List String}
    {transitions : List Transition} {bodies : List (Body ρ)}
    (h : transitions.mapM (Transition.body scheme raised) = .ok bodies) :
    bodies.map List.length = transitions.map Transition.width := by
  rw [mapM_eq_ok_iff] at h
  induction h with
  | nil => rfl
  | cons hbody _ ih => rw [List.map_cons, List.map_cons, Transition.length_body hbody, ih]

/-- The bodies of a state are those of its statements and then those of its transitions. -/
lemma State.bodies_eq_ok_iff {scheme : RegisterScheme ρ} {s : State} {bodies : List (Body ρ)} :
    s.bodies scheme = .ok bodies ↔
      ∃ statements transitions,
        Statement.bodies scheme [] s.statements = .ok statements
          ∧ s.transitions.mapM (Transition.body scheme (s.statements.map Statement.out))
              = .ok transitions
          ∧ bodies = statements ++ transitions := by
  simp only [State.bodies, bind_eq_ok_iff]
  constructor
  · rintro ⟨statements, hs, transitions, ht, h⟩
    exact ⟨statements, transitions, hs, ht, (Except.ok.inj h).symm⟩
  · rintro ⟨statements, transitions, hs, ht, rfl⟩
    exact ⟨statements, hs, transitions, ht, rfl⟩

/-- **The blocks of a state are as wide as its source says.** -/
theorem State.map_length_bodies {scheme : RegisterScheme ρ} {s : State} {bodies : List (Body ρ)}
    (h : s.bodies scheme = .ok bodies) : bodies.map List.length = s.blockWidths := by
  obtain ⟨statements, transitions, hs, ht, rfl⟩ := State.bodies_eq_ok_iff.mp h
  rw [List.map_append, Statement.map_length_bodies hs, Transition.map_length_bodies ht]
  rfl

lemma State.length_flatten_bodies {scheme : RegisterScheme ρ} {s : State}
    {bodies : List (Body ρ)} (h : s.bodies scheme = .ok bodies) :
    bodies.flatten.length = s.width := by
  rw [List.length_flatten, State.map_length_bodies h]
  rfl

end Microstep
