import Microstep.Proofs.Reduction
import Microstep.Proofs.Registers

/-!
# Lowering preserves meaning

What a state of a machine means can be said without a program.  Its statements give pulses to
counters, one after the other; a counter that has a pulse is read as its pulse, any other variable
as what the registers hold.  Then the first transition without a condition, or with one that is not
zero, is taken.

* `Statement.pulse`, `State.pulses` — the pulses of a state;
* `State.next` — the id that a state goes to; `State.duration` — after how many op-steps.

The program of a lowered machine does the same on its memory: from the address of a state it runs
through the blocks of the state, up to that of the transition taken, and then goes to the address of
the state that has the id, or on to the reserved slot if no transition is taken
(`Machine.lower_preserves_meaning`).

**The invariant.**  `Carries` relates the pulses given so far to what the registers hold: the signals
hold the pulses, and apart from signals of counters with a pulse, temps and the guard, nothing has
changed since the state was entered.  A statement adds a pulse (`Carries.statement`) and a transition
adds nothing (`Carries.transition`).
-/

namespace Microstep

variable {ρ τ : Type}

/-! ## The meaning of a state -/

section

variable (ops : Operator → Int → Int → Int) (values : String → Int)

/-- What a variable is read as: its pulse, if it has one. -/
def readPulse (pulses : String → Option Int) (v : String) : Int := (pulses v).getD (values v)

/-- The pulses after a statement: its counter gets the value of the amount. -/
def Statement.pulse (pulses : String → Option Int) (s : Statement) : String → Option Int :=
  Function.update pulses s.out (some (s.amount.eval ops (readPulse values pulses)))

/-- Whether a transition is taken, if variables are read as `read` says. -/
def Transition.holds (read : String → Int) (t : Transition) : Bool :=
  match t.condition with
  | none => true
  | some c => c.eval ops read != 0

namespace State

/-- **The pulses of a state**, after all its statements. -/
def pulses (s : State) : String → Option Int :=
  s.statements.foldl (Statement.pulse ops values) fun _ => none

/-- Whether a transition of the state is taken when it is tried. -/
def takes (s : State) (t : Transition) : Bool := t.holds ops (readPulse values (s.pulses ops values))

/-- **Where a state goes**: to the target of the first transition that is taken. -/
def next (s : State) : Option StateId :=
  (s.transitions.find? (s.takes ops values)).map Transition.target

/-- How many op-steps are run until a state is left: those of all blocks up to that of the first
transition that is taken. -/
def duration (s : State) : Nat :=
  (s.blockWidths.take
    (s.statements.length + (s.transitions.findIdx (s.takes ops values) + 1))).sum

end State

end

/-- The variables of a statement: its counter and those of its amount. -/
def Statement.names (s : Statement) : List String := s.out :: s.amount.names

/-- The variables of a transition. -/
def Transition.names (t : Transition) : List String := t.condition.elim [] Expr.names

/-- The variables of a state. -/
def State.names (s : State) : List String :=
  s.statements.flatMap Statement.names ++ s.transitions.flatMap Transition.names

/-- A counter has a pulse after statements exactly when one of them raises it, or it had one
before. -/
lemma Statement.isSome_foldl_pulse (ops : Operator → Int → Int → Int) (values : String → Int)
    (v : String) :
    ∀ (statements : List Statement) (pulses : String → Option Int),
      (statements.foldl (Statement.pulse ops values) pulses v).isSome = true
        ↔ v ∈ statements.map Statement.out ∨ (pulses v).isSome = true
  | [], pulses => by simp
  | s :: rest, pulses => by
      rw [List.foldl_cons, Statement.isSome_foldl_pulse ops values v rest, List.map_cons,
        List.mem_cons, Statement.pulse]
      by_cases hv : v = s.out
      · simp [hv]
      · simp [hv]

lemma State.isSome_pulses_iff (ops : Operator → Int → Int → Int) (values : String → Int)
    (s : State) (v : String) :
    (s.pulses ops values v).isSome = true ↔ v ∈ s.statements.map Statement.out := by
  rw [State.pulses, Statement.isSome_foldl_pulse]
  simp

/-! ## The invariant -/

/-- **The registers carry the pulses.**  The signals hold the pulses given so far; the guard, temps
and signals of counters with a pulse apart, the registers hold what they did initially. -/
structure Carries (scheme : RegisterScheme ρ) (initial : ρ → Int) (pulses : String → Option Int)
    (store : ρ → Int) : Prop where
  signal_eq : ∀ {v : String} {x : Int}, pulses v = some x → store (scheme.signal v) = x
  kept : ∀ {r : ρ}, r ≠ scheme.guard → (∀ v, (pulses v).isSome = true → r ≠ scheme.signal v) →
    (∀ n, r ≠ scheme.temp n) → store r = initial r

namespace Carries

variable {scheme : RegisterScheme ρ} {initial store store' : ρ → Int}
  {pulses : String → Option Int} {names raised : List String}

/-- Before the first statement there are no pulses to carry. -/
lemma start (scheme : RegisterScheme ρ) (store : ρ → Int) :
    Carries scheme store (fun _ => none) store where
  signal_eq := nofun
  kept := fun _ _ _ => rfl

/-- Changing the guard and temps keeps the pulses. -/
lemma of_agrees (h : Carries scheme initial pulses store) (hapart : scheme.KeepsApart names)
    (hagree : ∀ r, r ≠ scheme.guard → (∀ n, r ≠ scheme.temp n) → store' r = store r) :
    Carries scheme initial pulses store' := by
  refine ⟨fun {v x} hv => ?_, fun {r} hguard hsignal htemp => ?_⟩
  · have hne : scheme.signal v ≠ scheme.guard :=
      hapart.ne (.signal v) .guard trivial trivial nofun
    have hne' : ∀ n, scheme.signal v ≠ scheme.temp n := fun n =>
      hapart.ne (.signal v) (.temp n) trivial trivial nofun
    rw [hagree _ hne hne', h.signal_eq hv]
  · rw [hagree r hguard htemp, h.kept hguard hsignal htemp]

/-- **A variable is read from the register that holds what it is read as.** -/
lemma read_eq (h : Carries scheme initial pulses store) (hapart : scheme.KeepsApart names)
    (hraised : ∀ v, v ∈ raised ↔ (pulses v).isSome = true) {v : String} (hv : v ∈ names) :
    store (scheme.read raised v) = readPulse (fun v => initial (scheme.user v)) pulses v := by
  rw [readPulse]
  cases hpulse : pulses v with
  | some x =>
      have hmem : v ∈ raised := (hraised v).mpr (by rw [hpulse]; rfl)
      rw [scheme.read_of_mem hmem, h.signal_eq hpulse, Option.getD_some]
  | none =>
      have hmem : v ∉ raised := by
        rw [hraised v, hpulse]
        exact Bool.false_ne_true
      rw [scheme.read_of_not_mem hmem, Option.getD_none]
      refine h.kept ?_ ?_ ?_
      · exact hapart.ne (.user v) .guard hv trivial nofun
      · exact fun c _ => hapart.ne (.user v) (.signal c) hv trivial nofun
      · exact fun n => hapart.ne (.user v) (.temp n) hv trivial nofun

/-- Expressions over the variables of the state have the value that the source gives them. -/
lemma eval_eq (h : Carries scheme initial pulses store) (hapart : scheme.KeepsApart names)
    (hraised : ∀ v, v ∈ raised ↔ (pulses v).isSome = true) {e : Expr}
    (hnames : ∀ v ∈ e.names, v ∈ names) (ops : Operator → Int → Int → Int) :
    e.eval ops (fun v => store (scheme.read raised v))
      = e.eval ops (readPulse (fun v => initial (scheme.user v)) pulses) :=
  Expr.eval_congr fun v hv => h.read_eq hapart hraised (hnames v hv)

variable [DecidableEq ρ]

/-- Opening the guard keeps the pulses. -/
lemma openGuard (h : Carries scheme initial pulses store) (hapart : scheme.KeepsApart names) :
    Carries scheme initial pulses (Function.update store scheme.guard 1) :=
  h.of_agrees hapart fun _ hguard _ => Function.update_of_ne hguard _ _

/-- Writing a pulse into its signal. -/
lemma update_signal (h : Carries scheme initial pulses store) (hapart : scheme.KeepsApart names)
    (counter : String) (x : Int) :
    Carries scheme initial (Function.update pulses counter (some x))
      (Function.update store (scheme.signal counter) x) := by
  refine ⟨fun {v y} hv => ?_, fun {r} hguard hsignal htemp => ?_⟩
  · by_cases hvc : v = counter
    · subst hvc
      rw [Function.update_self] at hv ⊢
      exact Option.some.inj hv
    · have hne : scheme.signal v ≠ scheme.signal counter :=
        hapart.ne (.signal v) (.signal counter) trivial trivial
          fun heq => hvc (Register.signal.inj heq)
      rw [Function.update_of_ne hvc] at hv
      rw [Function.update_of_ne hne, h.signal_eq hv]
  · have hne : r ≠ scheme.signal counter := hsignal counter (by rw [Function.update_self]; rfl)
    rw [Function.update_of_ne hne]
    refine h.kept hguard (fun v hv => hsignal v ?_) htemp
    by_cases hvc : v = counter
    · rw [hvc, Function.update_self]
      rfl
    · rwa [Function.update_of_ne hvc]

/-! ## Statements -/

variable {ops : Operator → Int → Int → Int}

/-- **A statement gives its counter a pulse.** -/
theorem statement (h : Carries scheme initial pulses store) (hapart : scheme.KeepsApart names)
    (hraised : ∀ v, v ∈ raised ↔ (pulses v).isSome = true) (hmul : ∀ x y, ops .mul x y = x * y)
    {s : Statement} (hnames : ∀ v ∈ s.names, v ∈ names) {body : Body ρ}
    (hbody : s.body scheme raised = .ok body) :
    ∃ store', OpStep.execAll scheme.guard ops store body
        = { store := store', exit := none, count := body.length }
      ∧ Carries scheme initial (s.pulse ops (fun v => initial (scheme.user v)) pulses) store' := by
  obtain ⟨_, o, hamount, _, rfl⟩ := Statement.body_eq_ok_iff.mp hbody
  have hopen := h.openGuard hapart
  have hvalue : (o.map (scheme.read raised)).value (Function.update store scheme.guard 1)
      = s.amount.eval ops (readPulse (fun v => initial (scheme.user v)) pulses) := by
    have heval := hopen.eval_eq hapart hraised (e := s.amount)
      (fun v hv => hnames v (List.mem_cons_of_mem _ hv)) ops
    rw [← heval, hamount, Operand.value_map]
    rfl
  refine ⟨_, rfl, ?_⟩
  show Carries scheme initial _ (Function.update (Function.update store scheme.guard 1)
    (scheme.signal s.out) (ops .mul (Function.update store scheme.guard 1 scheme.guard)
      ((o.map (scheme.read raised)).value (Function.update store scheme.guard 1))))
  rw [hmul, Function.update_self, Int.one_mul, hvalue]
  exact hopen.update_signal hapart s.out _

/-- **Statements give pulses one after the other**, and do not branch away. -/
theorem statements (hapart : scheme.KeepsApart names) (hmul : ∀ x y, ops .mul x y = x * y) :
    ∀ {statements : List Statement} {raised : List String} {pulses : String → Option Int}
      {store : ρ → Int} {bodies : List (Body ρ)},
      Carries scheme initial pulses store → (∀ v, v ∈ raised ↔ (pulses v).isSome = true) →
      (∀ v ∈ statements.flatMap Statement.names, v ∈ names) →
      Statement.bodies scheme raised statements = .ok bodies →
        ∃ store', OpStep.execAll scheme.guard ops store bodies.flatten
            = { store := store', exit := none, count := bodies.flatten.length }
          ∧ Carries scheme initial
              (statements.foldl (Statement.pulse ops fun v => initial (scheme.user v)) pulses)
              store'
  | [], _, _, store, _, h, _, _, hbodies => by
      cases hbodies
      exact ⟨store, rfl, h⟩
  | s :: rest, raised, pulses, store, bodies, h, hraised, hnames, hbodies => by
      simp only [Statement.bodies, bind_eq_ok_iff] at hbodies
      obtain ⟨body, hbody, others, hothers, hbodies⟩ := hbodies
      cases hbodies
      rw [List.flatMap_cons] at hnames
      obtain ⟨store₁, hexec₁, h₁⟩ := h.statement hapart hraised hmul
        (fun v hv => hnames v (List.mem_append_left _ hv)) hbody
      have hraised₁ : ∀ v, v ∈ s.out :: raised ↔
          (s.pulse ops (fun v => initial (scheme.user v)) pulses v).isSome = true := by
        intro v
        have hsome := Statement.isSome_foldl_pulse ops (fun v => initial (scheme.user v)) v [s]
          pulses
        rw [← hraised v] at hsome
        simpa using hsome.symm
      obtain ⟨store₂, hexec₂, h₂⟩ := statements hapart hmul h₁ hraised₁
        (fun v hv => hnames v (List.mem_append_right _ hv)) hothers
      refine ⟨store₂, ?_, h₂⟩
      rw [List.flatten_cons, OpStep.execAll_append_of_none (by rw [hexec₁]), hexec₁, hexec₂,
        List.length_append]

end Carries

/-! ## Transitions -/

namespace RegisterScheme.KeepsApart

variable {scheme : RegisterScheme ρ} {names : List String}

lemma temp_injective (hapart : scheme.KeepsApart names) : Function.Injective scheme.temp := by
  intro n n' h
  have hreg : Register.temp n = Register.temp n' := hapart trivial trivial h
  exact Register.temp.inj hreg

/-- No variable is read from the guard or a temp. -/
lemma read_ne (hapart : scheme.KeepsApart names) (raised : List String) {v : String}
    (hv : v ∈ names) :
    scheme.read raised v ≠ scheme.guard ∧ ∀ n, scheme.read raised v ≠ scheme.temp n := by
  by_cases hmem : v ∈ raised
  · rw [scheme.read_of_mem hmem]
    exact ⟨hapart.ne (.signal v) .guard trivial trivial nofun,
      fun n => hapart.ne (.signal v) (.temp n) trivial trivial nofun⟩
  · rw [scheme.read_of_not_mem hmem]
    exact ⟨hapart.ne (.user v) .guard hv trivial nofun,
      fun n => hapart.ne (.user v) (.temp n) hv trivial nofun⟩

end RegisterScheme.KeepsApart

section

variable [DecidableEq ρ] {ops : Operator → Int → Int → Int}

/-- Computes at one address each do not branch away. -/
lemma OpStep.execAll_computes {κ : Type} (guard : ρ) :
    ∀ (computes : List (Compute ρ)) (store : ρ → Int),
      OpStep.execAll guard ops store (computes.map fun c => ([.compute c] : OpStep ρ κ))
        = { store := Compute.execAll ops store computes
            exit := none
            count := computes.length }
  | [], _ => rfl
  | c :: computes, store => by
      have hc : OpStep.exec guard ops store ([.compute c] : OpStep ρ κ)
          = (c.exec ops store, none) := rfl
      rw [List.map_cons, OpStep.execAll_cons_of_none hc, OpStep.execAll_computes guard computes]
      rfl

/-- The op-steps that compute an operation, the guard opened together with the last. -/
def Reduction.OfNode.steps (node : Reduction.OfNode ρ) : Body ρ :=
  node.before.map (fun c => [.compute c]) ++ [[.compute node.compute, .openGuard]]

lemma Reduction.OfNode.execAll_steps (guard : ρ) (node : Reduction.OfNode ρ) (store : ρ → Int) :
    OpStep.execAll guard ops store node.steps
      = { store :=
            Function.update (Compute.execAll ops store node.toReduction.computes) guard 1
          exit := none
          count := node.steps.length } := by
  have hcomputes : Compute.execAll ops store node.toReduction.computes
      = node.compute.exec ops (Compute.execAll ops store node.before) :=
    Compute.execAll_append store node.before [node.compute]
  have hlast : OpStep.exec guard ops (Compute.execAll ops store node.before)
      ([.compute node.compute, .openGuard] : OpStep ρ StateId)
        = (Function.update (Compute.execAll ops store node.toReduction.computes) guard 1, none) := by
    rw [hcomputes]
    rfl
  have hbefore : OpStep.execAll guard ops store
      (node.before.map fun c => ([.compute c] : OpStep ρ StateId)) = _ :=
    OpStep.execAll_computes guard node.before store
  rw [Reduction.OfNode.steps, OpStep.execAll_append_of_none (by rw [hbefore]), hbefore,
    OpStep.execAll_cons_of_none hlast, List.length_append, List.length_map]
  rfl

/-- With the guard open, a gated value branches away unless it is zero. -/
lemma Transition.execAll_gated {scheme : RegisterScheme ρ} (hmul : ∀ x y, ops .mul x y = x * y)
    {store : ρ → Int} (hguard : store scheme.guard = 1) (value : Operand ρ) (n : Nat)
    (target : StateId) :
    OpStep.execAll scheme.guard ops store (Transition.gated scheme value n target)
      = { store := Function.update store (scheme.temp n) (value.value store)
          exit := if value.value store = 0 then none else some target
          count := 2 } := by
  have hcompute : OpStep.exec scheme.guard ops store
      ([.compute
        { left := value
          right := .name scheme.guard
          operator := .mul
          countFromInput := none
          out := scheme.temp n }] : OpStep ρ StateId)
        = (Function.update store (scheme.temp n) (value.value store), none) := by
    have hproduct : ops .mul (value.value store) (store scheme.guard) = value.value store := by
      rw [hmul, hguard, Int.mul_one]
    show (Function.update store (scheme.temp n)
      (ops .mul (value.value store) (store scheme.guard)), none) = _
    rw [hproduct]
  have hbranch : OpStep.exec scheme.guard ops
      (Function.update store (scheme.temp n) (value.value store))
      ([.branch (scheme.temp n) target] : OpStep ρ StateId)
        = (Function.update store (scheme.temp n) (value.value store),
            if value.value store = 0 then none else some target) := by
    simp only [OpStep.exec, MicroOp.exec, Function.update_self]
    split_ifs <;> rfl
  rw [Transition.gated, OpStep.execAll_cons_of_none hcompute]
  split_ifs at hbranch ⊢ with hzero
  · rw [OpStep.execAll_cons_of_none hbranch]
    rfl
  · rw [OpStep.execAll_cons_of_some hbranch]

/-- The op-steps of a jump under a condition: first those that open the guard and find the value `x`
of the condition, which do not branch away, and then the gated value. -/
lemma Transition.execAll_append_gated {scheme : RegisterScheme ρ}
    (hmul : ∀ x y, ops .mul x y = x * y) {first : Body ρ} {store store₁ : ρ → Int}
    (hfirst : OpStep.execAll scheme.guard ops store first
      = { store := store₁, exit := none, count := first.length })
    (hguard : store₁ scheme.guard = 1) {value : Operand ρ} {x : Int}
    (hvalue : value.value store₁ = x)
    (hkept : ∀ r, r ≠ scheme.guard → (∀ n, r ≠ scheme.temp n) → store₁ r = store r) (n : Nat)
    (target : StateId) :
    ∃ store', OpStep.execAll scheme.guard ops store
          (first ++ Transition.gated scheme value n target)
        = { store := store'
            exit := if x = 0 then none else some target
            count := (first ++ Transition.gated scheme value n target).length }
      ∧ ∀ r, r ≠ scheme.guard → (∀ n, r ≠ scheme.temp n) → store' r = store r := by
  refine ⟨Function.update store₁ (scheme.temp n) x, ?_, fun r hr htemp => ?_⟩
  · rw [OpStep.execAll_append_of_none (by rw [hfirst]), hfirst,
      Transition.execAll_gated hmul hguard, hvalue, List.length_append]
    rfl
  · rw [Function.update_of_ne (htemp n), hkept r hr htemp]

omit [DecidableEq ρ] in
/-- Where the condition is an operation, the jump gates what the operation is reduced to. -/
lemma Transition.conditional_node (scheme : RegisterScheme ρ) (raised : List String)
    (target : StateId) (l : Expr) (op : Operator) (r : Expr) :
    ∃ node : Reduction.OfNode ρ,
      (Expr.node l op r).reduce scheme (scheme.read raised) 0 = node.toReduction
        ∧ Transition.conditional scheme raised target (.node l op r)
            = node.steps
              ++ Transition.gated scheme (.name (scheme.temp node.out)) node.out target :=
  ⟨_, rfl, List.append_cons _ _ _⟩

/-- **A jump under a condition branches away unless the condition is zero**, and changes only the
guard and temps. -/
theorem Transition.execAll_conditional {scheme : RegisterScheme ρ} {names : List String}
    (hapart : scheme.KeepsApart names) (hmul : ∀ x y, ops .mul x y = x * y) {c : Expr}
    (hnames : ∀ v ∈ c.names, v ∈ names) (raised : List String) (target : StateId)
    (store : ρ → Int) :
    ∃ store', OpStep.execAll scheme.guard ops store
          (Transition.conditional scheme raised target c)
        = { store := store'
            exit := if c.eval ops (fun v => store (scheme.read raised v)) = 0 then none
              else some target
            count := (Transition.conditional scheme raised target c).length }
      ∧ ∀ r, r ≠ scheme.guard → (∀ n, r ≠ scheme.temp n) → store' r = store r := by
  cases c with
  | leaf o =>
      have hfirst : OpStep.execAll scheme.guard ops store ([[.openGuard]] : Body ρ)
          = { store := Function.update store scheme.guard 1, exit := none, count := 1 } := rfl
      refine Transition.execAll_append_gated hmul hfirst (Function.update_self _ _ _) ?_
        (fun r hguard _ => Function.update_of_ne hguard _ _) 0 target
      rw [Operand.value_map]
      show (Expr.leaf o).eval ops _ = (Expr.leaf o).eval ops _
      refine Expr.eval_congr fun v hv => ?_
      exact Function.update_of_ne (hapart.read_ne raised (hnames v hv)).1 _ _
  | node l op r =>
      obtain ⟨node, hreduce, hbody⟩ := Transition.conditional_node scheme raised target l op r
      have htemps : ∀ v ∈ (Expr.node l op r).names, ∀ n, 0 ≤ n →
          scheme.read raised v ≠ scheme.temp n :=
        fun v hv n _ => (hapart.read_ne raised (hnames v hv)).2 n
      have hvalue : Compute.execAll ops store node.toReduction.computes (scheme.temp node.out)
          = (Expr.node l op r).eval ops fun v => store (scheme.read raised v) := by
        rw [← Expr.value_reduce hapart.temp_injective htemps store, hreduce]
        rfl
      rw [hbody]
      refine Transition.execAll_append_gated hmul (node.execAll_steps scheme.guard store)
        (Function.update_self _ _ _) ?_ (fun x hguard htemp => ?_) node.out target
      · rw [← hvalue]
        exact Function.update_of_ne
          (hapart.ne (.temp node.out) .guard trivial trivial nofun) _ _
      · rw [Function.update_of_ne hguard, ← hreduce]
        exact Expr.execAll_reduce_of_ne scheme _ (fun n _ _ => htemp n) store

end

namespace Carries

variable [DecidableEq ρ] {scheme : RegisterScheme ρ} {initial : ρ → Int}
  {pulses : String → Option Int} {names raised : List String}
  {ops : Operator → Int → Int → Int}

/-- **A transition branches away if it is taken**, and gives no pulse. -/
theorem transition {store : ρ → Int} (h : Carries scheme initial pulses store)
    (hapart : scheme.KeepsApart names) (hraised : ∀ v, v ∈ raised ↔ (pulses v).isSome = true)
    (hmul : ∀ x y, ops .mul x y = x * y) {t : Transition} (hnames : ∀ v ∈ t.names, v ∈ names)
    {body : Body ρ} (hbody : t.body scheme raised = .ok body) :
    ∃ store', OpStep.execAll scheme.guard ops store body
        = { store := store'
            exit := if t.holds ops (readPulse (fun v => initial (scheme.user v)) pulses) then
              some t.target else none
            count := body.length }
      ∧ Carries scheme initial pulses store' := by
  rcases Transition.body_eq_ok_iff.mp hbody with ⟨hcond, rfl⟩ | ⟨c, hcond, _, rfl⟩
  · refine ⟨Function.update store scheme.guard 1, ?_, h.openGuard hapart⟩
    simp [OpStep.execAll, OpStep.exec, MicroOp.exec, Transition.holds, hcond]
  · have hnames' : ∀ v ∈ c.names, v ∈ names := fun v hv => hnames v (by
      rw [Transition.names, hcond]
      exact hv)
    obtain ⟨store', hexec, hkept⟩ :=
      Transition.execAll_conditional hapart hmul hnames' raised t.target store
    refine ⟨store', ?_, h.of_agrees hapart hkept⟩
    rw [hexec, h.eval_eq hapart hraised hnames', Transition.holds, hcond]
    simp only [bne_iff_ne, ne_eq, ite_not]

/-- **The first transition that is taken branches away**, once its block is done. -/
theorem transitions (hapart : scheme.KeepsApart names)
    (hraised : ∀ v, v ∈ raised ↔ (pulses v).isSome = true)
    (hmul : ∀ x y, ops .mul x y = x * y) {transitions : List Transition}
    {bodies : List (Body ρ)}
    (hbodies : List.Forall₂ (fun t body => t.body scheme raised = .ok body) transitions bodies) :
    ∀ {store : ρ → Int}, Carries scheme initial pulses store →
      (∀ v ∈ transitions.flatMap Transition.names, v ∈ names) →
        ∃ store', OpStep.execAll scheme.guard ops store bodies.flatten
            = { store := store'
                exit := (transitions.find? (Transition.holds ops
                  (readPulse (fun v => initial (scheme.user v)) pulses))).map Transition.target
                count := ((transitions.map Transition.width).take (transitions.findIdx
                  (Transition.holds ops (readPulse (fun v => initial (scheme.user v)) pulses))
                    + 1)).sum }
          ∧ Carries scheme initial pulses store' := by
  induction hbodies with
  | nil =>
      intro store h _
      exact ⟨store, rfl, h⟩
  | @cons t body rest others hbody _ ih =>
      intro store h hnames
      rw [List.flatMap_cons] at hnames
      obtain ⟨store₁, hexec₁, h₁⟩ := h.transition hapart hraised hmul
        (fun v hv => hnames v (List.mem_append_left _ hv)) hbody
      rw [Transition.length_body hbody] at hexec₁
      rw [List.flatten_cons, List.find?_cons, List.findIdx_cons, List.map_cons,
        List.take_succ_cons, List.sum_cons]
      cases hholds : t.holds ops (readPulse (fun v => initial (scheme.user v)) pulses) with
      | true =>
          rw [hholds, if_pos rfl] at hexec₁
          refine ⟨store₁, ?_, h₁⟩
          rw [OpStep.execAll_append_of_some (by rw [hexec₁]), hexec₁]
          rfl
      | false =>
          rw [hholds, if_neg Bool.false_ne_true] at hexec₁
          obtain ⟨store₂, hexec₂, h₂⟩ :=
            ih h₁ fun v hv => hnames v (List.mem_append_right _ hv)
          refine ⟨store₂, ?_, h₂⟩
          rw [OpStep.execAll_append_of_none (by rw [hexec₁]), hexec₁, hexec₂]
          rfl

end Carries

/-! ## States -/

section

variable {ops : Operator → Int → Int → Int} {values : String → Int}

lemma State.duration_le (s : State) : s.duration ops values ≤ s.width := by
  rw [State.duration, State.width]
  exact (List.take_sublist _ _).sum_le_sum fun _ _ => Nat.zero_le _

/-- If no transition is taken, all blocks are run. -/
lemma State.duration_of_next_eq_none {s : State} (h : s.next ops values = none) :
    s.duration ops values = s.width := by
  rw [State.next, Option.map_eq_none_iff, List.find?_eq_none] at h
  have hidx : s.transitions.findIdx (s.takes ops values) = s.transitions.length :=
    List.findIdx_eq_length.mpr fun t ht => Bool.eq_false_of_not_eq_true (h t ht)
  rw [State.duration, State.width, List.take_of_length_le]
  rw [State.blockWidths, List.length_append, List.length_map, List.length_map, hidx]
  omega

variable [DecidableEq ρ] {scheme : RegisterScheme ρ}

/-- **The blocks of a state do what the state means.** -/
theorem State.execAll_bodies {s : State} (hapart : scheme.KeepsApart s.names)
    (hmul : ∀ x y, ops .mul x y = x * y) {bodies : List (Body ρ)}
    (hbodies : s.bodies scheme = .ok bodies) (store : ρ → Int) :
    ∃ store', OpStep.execAll scheme.guard ops store bodies.flatten
        = { store := store'
            exit := s.next ops fun v => store (scheme.user v)
            count := s.duration ops fun v => store (scheme.user v) }
      ∧ Carries scheme store (s.pulses ops fun v => store (scheme.user v)) store' := by
  obtain ⟨first, later, hfirst, hlater, rfl⟩ := State.bodies_eq_ok_iff.mp hbodies
  rw [mapM_eq_ok_iff] at hlater
  obtain ⟨store₁, hexec₁, h₁⟩ := Carries.statements hapart hmul (Carries.start scheme store)
    (by simp) (fun v hv => List.mem_append_left _ hv) hfirst
  obtain ⟨store₂, hexec₂, h₂⟩ := Carries.transitions hapart
    (fun v => (s.isSome_pulses_iff ops (fun v => store (scheme.user v)) v).symm) hmul hlater h₁
    fun v hv => List.mem_append_right _ hv
  refine ⟨store₂, ?_, h₂⟩
  have hlength : first.flatten.length = (s.statements.map fun _ => 2).sum := by
    rw [List.length_flatten, Statement.map_length_bodies hfirst]
  have hcount : (s.duration ops fun v => store (scheme.user v))
      = first.flatten.length + ((s.transitions.map Transition.width).take
          (s.transitions.findIdx (s.takes ops fun v => store (scheme.user v)) + 1)).sum := by
    have hstatements : s.statements.length = (s.statements.map fun _ => 2).length := by
      rw [List.length_map]
    rw [State.duration, State.blockWidths, hstatements, List.take_length_add_append,
      List.sum_append, hlength]
  rw [List.flatten_append, OpStep.execAll_append_of_none (by rw [hexec₁]), hexec₁, hexec₂, hcount]
  rfl

end

/-- A lowered state is run through its blocks, and left for the address of where it goes. -/
lemma Lowered.run_state [DecidableEq ρ] {scheme : RegisterScheme ρ} {m : Machine τ}
    {p : Program ρ τ} (h : Lowered scheme m p) {i : Nat} {s : State} {q : ProgramState ρ}
    (hs : m.states[i]? = some s) (hq : p.states[i]? = some q)
    (hapart : scheme.KeepsApart s.names) {ops : Operator → Int → Int → Int}
    (hmul : ∀ x y, ops .mul x y = x * y) (store : ρ → Int) :
    ∃ store', Carries scheme store (s.pulses ops fun v => store (scheme.user v)) store'
      ∧ p.run scheme.guard ops (s.duration ops fun v => store (scheme.user v))
            { pc := q.address.toNat, store }
          = some
            { pc := ((s.next ops fun v => store (scheme.user v)).map fun label =>
                (Lowered.targets m p label).toNat).getD (q.address.toNat + q.width)
              store := store' }
      ∧ ∀ k < s.duration ops fun v => store (scheme.user v), ∃ between,
          p.run scheme.guard ops k { pc := q.address.toNat, store }
            = some { pc := q.address.toNat + k, store := between } := by
  obtain ⟨_, _, bodies, hbodies, hblocks⟩ := h.state_at hs hq
  obtain ⟨store', hexec, hcarries⟩ := State.execAll_bodies hapart hmul hbodies store
  obtain ⟨hend, hway⟩ := Program.run_execAll (h.holds hq) store
  have hsteps : q.blocks.flatMap Block.steps
      = bodies.flatten.map (OpStep.relabel (Lowered.targets m p)) := by
    rw [hblocks, Compiled.flatMap_steps_blocksAt]
  have hwidth : (q.blocks.flatMap Block.steps).length = q.width := rfl
  rw [hwidth, hsteps, OpStep.execAll_map_relabel, hexec] at hend
  rw [hsteps, OpStep.execAll_map_relabel, hexec] at hway
  refine ⟨store', hcarries, ?_, hway⟩
  rw [hend, Option.map_map]
  rfl

/-- **Lowering preserves meaning.**  Take a valid naming, a machine that is lowered, and a state none
of whose variables has a reserved name, whatever the registers hold and however operators other than
multiplication are read.  Run from the address of the state, the program goes through the addresses
of the state one by one, for as many op-steps as the blocks up to the transition taken are wide, and
then to the address of the state that the transition names; if none is taken, it goes through the
whole state to the reserved slot after it.  Afterwards the signals hold the pulses of the state, and
apart from these signals, temps and the guard no register has changed. -/
theorem Machine.lower_preserves_meaning {n : Naming} (hvalid : n.validate = .ok n)
    {m : Machine τ} {p : Program String τ} (hlower : m.lower n.scheme = .ok p) {i : Nat}
    {s : State} (hs : m.states[i]? = some s) (hnames : ∀ v ∈ s.names, ¬ n.Reserves v)
    {ops : Operator → Int → Int → Int} (hmul : ∀ x y, ops .mul x y = x * y)
    (store : String → Int) :
    ∃ (q : ProgramState String) (store' : String → Int), p.states[i]? = some q
      ∧ (∀ k < s.duration ops store, k < q.width ∧ ∃ between,
          p.run n.guard ops k { pc := q.address.toNat, store }
            = some { pc := q.address.toNat + k, store := between })
      ∧ (∀ target, s.next ops store = some target →
          ∃ (j : Nat) (s' : State) (q' : ProgramState String), m.states[j]? = some s'
            ∧ s'.id = target ∧ p.states[j]? = some q'
            ∧ p.run n.guard ops (s.duration ops store) { pc := q.address.toNat, store }
                = some { pc := q'.address.toNat, store := store' })
      ∧ (s.next ops store = none → s.duration ops store = q.width
          ∧ p.run n.guard ops q.width { pc := q.address.toNat, store }
              = some { pc := q.address.toNat + q.width, store := store' })
      ∧ (∀ v ∈ s.statements.map Statement.out,
          s.pulses ops store v = some (store' (n.signal v)))
      ∧ (∀ r, r ≠ n.guard → (∀ v ∈ s.statements.map Statement.out, r ≠ n.signal v) →
          (∀ k, r ≠ n.temp k) → store' r = store r) := by
  have hlow := Machine.lower_eq_ok hlower
  have hapart : n.scheme.KeepsApart s.names := Naming.keepsApart hvalid hnames
  obtain ⟨q, hq⟩ := hlow.exists_placed hs
  obtain ⟨store', hcarries, hend, hway⟩ := hlow.run_state hs hq hapart hmul store
  -- a naming keeps the names of variables, so the source reads the registers themselves
  replace hend : p.run n.guard ops (s.duration ops store) { pc := q.address.toNat, store }
      = some
        { pc := ((s.next ops store).map fun label => (Lowered.targets m p label).toNat).getD
            (q.address.toNat + q.width)
          store := store' } := hend
  have hwidth : q.width = s.width := hlow.width_eq hs hq
  refine ⟨q, store', hq, fun k hk => ⟨?_, hway k hk⟩, fun target htarget => ?_, fun hnone => ?_,
    fun v hv => ?_, fun r hguard hsignal htemp => ?_⟩
  · rw [hwidth]
    exact lt_of_lt_of_le hk s.duration_le
  · obtain ⟨t, ht, rfl⟩ := Option.map_eq_some_iff.mp htarget
    obtain ⟨j, s', q', hs', hid, hq', haddress⟩ :=
      hlow.exists_target (List.mem_of_getElem? hs) (List.mem_of_find?_eq_some ht)
    refine ⟨j, s', q', hs', hid, hq', ?_⟩
    rw [hend, htarget, ← haddress]
    rfl
  · have hduration : s.duration ops store = q.width := by
      rw [hwidth, State.duration_of_next_eq_none hnone]
    refine ⟨hduration, ?_⟩
    rw [← hduration, hend, hnone, Option.map_none, Option.getD_none, hduration]
  · obtain ⟨x, hx⟩ := Option.isSome_iff_exists.mp ((s.isSome_pulses_iff ops store v).mpr hv)
    rw [hx, ← hcarries.signal_eq hx]
    rfl
  · refine hcarries.kept hguard (fun v hv => hsignal v ?_) htemp
    exact (s.isSome_pulses_iff ops store v).mp hv

/-- A reading of the operators that conditions need most. -/
def Operator.apply : Operator → Int → Int → Int
  | .add, x, y => x + y
  | .sub, x, y => x - y
  | .mul, x, y => x * y
  | .lt, x, y => if x < y then 1 else 0
  | .gt, x, y => if x > y then 1 else 0
  | _, _, _ => 0

/-- A state that passes a pulse on from one counter to another. -/
def State.relay : State :=
  { id := .symbolic "relay"
    statements := [.increment "X" (.leaf (.name "Y")), .increment "Z" (.leaf (.name "X"))]
    transitions :=
      [ { condition := some (.node (.leaf (.name "X")) .lt (.leaf (.name "Z")))
          target := .symbolic "relay" },
        { condition :=
            some (.node (.node (.leaf (.name "X")) .add (.leaf (.name "Z"))) .gt
              (.leaf (.literal 3)))
          target := .numeric 40 } ] }

/-- The state, and one that it goes to. -/
def Machine.relay : Machine Unit :=
  { timers := []
    states := [.relay, { id := .numeric 40, statements := [], transitions := [] }] }

theorem Machine.lower_preserves_meaning_relay :
    ∃ p, Machine.relay.lower Naming.standard.scheme = .ok p
      ∧ ∃ store, p.run "GUARD" Operator.apply 11
            { pc := 41, store := fun v => if v = "Y" then 2 else 0 } = some { pc := 40, store }
          ∧ store "signal_Z" = 2 ∧ store "X" = 0 := by
  have hlower : (Machine.relay.lower Naming.standard.scheme).map
      (fun p => p.states.map ProgramState.address) = .ok [41, 40] := by cbv
  have hmul : ∀ x y, Operator.apply .mul x y = x * y := fun _ _ => rfl
  have hs : Machine.relay.states[0]? = some State.relay := rfl
  have hnames : ∀ v ∈ State.relay.names, ¬ Naming.standard.Reserves v := by decide
  cases h : Machine.relay.lower Naming.standard.scheme with
  | error e =>
      rw [h] at hlower
      cases hlower
  | ok p =>
      rw [h] at hlower
      have haddresses : p.states.map ProgramState.address = [41, 40] := Except.ok.inj hlower
      obtain ⟨q, store, hq, _, hnext, _, hpulses, hkept⟩ :=
        Machine.lower_preserves_meaning (by rfl) h hs hnames hmul fun v => if v = "Y" then 2 else 0
      obtain ⟨j, s', q', hs', hid, hq', hrun⟩ := hnext (.numeric 40) (by decide)
      have hj : j = 1 := by
        rcases j with _ | _ | j
        · cases hs'
          cases hid
        · rfl
        · cases hs'
      subst hj
      have haddress : q.address = 41 := by
        have hget := congrArg (·[0]?) haddresses
        simpa [hq] using hget
      have haddress' : q'.address = 40 := by
        have hget := congrArg (·[1]?) haddresses
        simpa [hq'] using hget
      rw [haddress, haddress'] at hrun
      refine ⟨p, rfl, store, hrun, ?_, hkept "X" (by decide) (by decide) ?_⟩
      · have hpulse : State.relay.pulses Operator.apply (fun v => if v = "Y" then 2 else 0) "Z"
            = some 2 := by decide
        exact (Option.some.inj (hpulse.symm.trans (hpulses "Z" (by decide)))).symm
      · intro k heq
        refine hnames "X" (by decide) (Or.inr (Or.inr ?_))
        rw [heq, Naming.startsWith_temp]

end Microstep
