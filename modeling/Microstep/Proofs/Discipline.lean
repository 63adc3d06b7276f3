import Microstep.Proofs.Branches
import Microstep.Proofs.Meaning
import Microstep.Proofs.Temps

/-!
# Which registers a block may touch

Every block keeps to its own registers.  The block of a statement writes the signal of its counter
and nothing else; the block of a transition writes temps and nothing else.  The stems of a valid
naming tell these apart from each other and from the guard, whatever the variables are called.

Temps do not carry values from one block into another: what a block reads from a temp it has written
there before (`OpStep.Grounded`).  For a condition this follows the reduction of its expression
(`Expr.grounded_reduce`), whose last compute shares an op-step with the opening of the guard
(`Transition.conditional_eq`).

* `OpStep.Orderly` — what holds of the op-steps of every block;
* `Lowered.block_cases` — a block is that of a statement or that of a transition;
* `Machine.lower_register_discipline` — all of it, at the names of a naming.
-/

namespace Microstep

variable {ρ κ κ' τ : Type}

/-! ## What op-steps read and write -/

namespace MicroOp

/-- What a micro-op computes. -/
def compute? : MicroOp ρ κ → Option (Compute ρ)
  | .openGuard => none
  | .compute c => some c
  | .branch _ _ => none

/-- Whether a micro-op opens the guard. -/
def isOpenGuard : MicroOp ρ κ → Bool
  | .openGuard => true
  | .compute _ => false
  | .branch _ _ => false

@[simp] lemma compute?_relabel (f : κ → κ') (op : MicroOp ρ κ) :
    (op.relabel f).compute? = op.compute? := by
  cases op <;> rfl

@[simp] lemma isOpenGuard_relabel (f : κ → κ') (op : MicroOp ρ κ) :
    (op.relabel f).isOpenGuard = op.isOpenGuard := by
  cases op <;> rfl

end MicroOp

/-- The registers that a compute reads. -/
def Compute.sources (c : Compute ρ) : List ρ := c.left.name?.toList ++ c.right.name?.toList

namespace OpStep

/-- The computes of an op-step. -/
def computes (step : OpStep ρ κ) : List (Compute ρ) := step.filterMap MicroOp.compute?

/-- The registers that op-steps compute into. -/
def written (steps : List (OpStep ρ κ)) : List ρ := (steps.flatMap computes).map Compute.out

@[simp] lemma computes_relabel (f : κ → κ') (step : OpStep ρ κ) :
    (step.relabel f).computes = step.computes := by
  simp [computes, relabel, List.filterMap_map]

@[simp] lemma flatMap_computes_relabel (f : κ → κ') (steps : List (OpStep ρ κ)) :
    (steps.map (relabel f)).flatMap computes = steps.flatMap computes := by
  simp [List.flatMap_map]

@[simp] lemma written_relabel (f : κ → κ') (steps : List (OpStep ρ κ)) :
    written (steps.map (relabel f)) = written steps := by
  simp [written]

@[simp] lemma written_append (first later : List (OpStep ρ κ)) :
    written (first ++ later) = written first ++ written later := by
  simp [written]

@[simp] lemma computes_singleton (c : Compute ρ) :
    computes ([.compute c] : OpStep ρ κ) = [c] := rfl

/-- Op-steps that do nothing but compute. -/
@[simp] lemma flatMap_computes_map (computed : List (Compute ρ)) :
    (computed.map fun c => ([.compute c] : OpStep ρ κ)).flatMap computes = computed := by
  simp [List.flatMap_map]

lemma written_map (computed : List (Compute ρ)) :
    written (computed.map fun c => ([.compute c] : OpStep ρ κ)) = computed.map Compute.out := by
  simp [written]

/-- Other targets are where op-steps branch to. -/
lemma flatMap_labels_relabel (f : κ → κ') (steps : List (OpStep ρ κ)) :
    (steps.map (relabel f)).flatMap labels = (steps.flatMap labels).map f := by
  rw [List.flatMap_map, List.map_flatMap]
  refine List.flatMap_congr fun step _ => ?_
  rw [labels, labels, relabel, List.flatMap_map, List.map_flatMap]
  refine List.flatMap_congr fun op _ => ?_
  cases op <;> rfl

/-! ## Written before they are read -/

/-- **Op-steps read nothing that has not been written**: every register that one of them reads is
among `known`, or an earlier one has computed into it. -/
def Grounded (known : Set ρ) : List (OpStep ρ κ) → Prop
  | [] => True
  | step :: rest =>
    (∀ c ∈ step.computes, ∀ r ∈ c.sources, r ∈ known)
      ∧ Grounded (known ∪ {r | r ∈ written [step]}) rest

lemma grounded_append {known : Set ρ} {first later : List (OpStep ρ κ)} :
    Grounded known (first ++ later) ↔
      Grounded known first ∧ Grounded (known ∪ {r | r ∈ written first}) later := by
  induction first generalizing known with
  | nil => simp [Grounded, written]
  | cons step rest ih =>
      have hwritten : known ∪ {r | r ∈ written (step :: rest)}
          = known ∪ {r | r ∈ written [step]} ∪ {r | r ∈ written rest} := by
        ext r
        simp [written, or_assoc]
      rw [List.cons_append, Grounded, Grounded, ih, hwritten, and_assoc]

lemma Grounded.relabel {known : Set ρ} {steps : List (OpStep ρ κ)} (h : Grounded known steps)
    (f : κ → κ') : Grounded known (steps.map (OpStep.relabel f)) := by
  induction steps generalizing known with
  | nil => trivial
  | cons step rest ih =>
      have hwritten : written [step.relabel f] = written [step] := by simp [written]
      refine ⟨by simpa using h.1, ?_⟩
      rw [hwritten]
      exact ih h.2

/-- A compute reads its operands. -/
lemma reads_compute {known : Set ρ} {c : Compute ρ} (hleft : ∀ r ∈ c.left.name?, r ∈ known)
    (hright : ∀ r ∈ c.right.name?, r ∈ known) :
    ∀ c' ∈ computes ([.compute c] : OpStep ρ κ), ∀ r ∈ c'.sources, r ∈ known := by
  intro c' hc' r hr
  rw [computes_singleton, List.mem_singleton] at hc'
  rw [hc', Compute.sources, List.mem_append, Option.mem_toList, Option.mem_toList] at hr
  exact hr.elim (hleft r) (hright r)

/-- What an op-step reads, by its index. -/
lemma Grounded.mem_of_read {known : Set ρ} {steps : List (OpStep ρ κ)} (h : Grounded known steps) :
    ∀ {k : Nat} {step : OpStep ρ κ}, steps[k]? = some step → ∀ c ∈ step.computes,
      ∀ r ∈ c.sources, r ∈ known ∨ r ∈ written (steps.take k) := by
  induction steps generalizing known with
  | nil => simp
  | cons first rest ih =>
      intro k step hstep c hc r hr
      cases k with
      | zero =>
          cases hstep
          exact Or.inl (h.1 c hc r hr)
      | succ k =>
          rw [List.take_succ_cons, ← List.singleton_append, written_append, List.mem_append]
          rcases ih h.2 hstep c hc r hr with (hknown | hfirst) | hrest
          · exact Or.inl hknown
          · exact Or.inr (Or.inl hfirst)
          · exact Or.inr (Or.inr hrest)

/-- **What holds of the op-steps of every block**, if the registers in `known` may be read: there is
something in each of them, the guard is opened once, and nothing is read that has not been
written. -/
structure Orderly (known : Set ρ) (steps : List (OpStep ρ κ)) : Prop where
  ne_nil : ∀ step ∈ steps, step ≠ []
  one_guard : steps.flatten.countP MicroOp.isOpenGuard = 1
  grounded : Grounded known steps

lemma Orderly.relabel {known : Set ρ} {steps : List (OpStep ρ κ)} (h : Orderly known steps)
    (f : κ → κ') : Orderly known (steps.map (OpStep.relabel f)) := by
  refine ⟨?_, ?_, h.grounded.relabel f⟩
  · simpa [OpStep.relabel] using h.ne_nil
  · rw [← h.one_guard, List.countP_flatten, List.countP_flatten, List.map_map]
    refine congrArg List.sum (List.map_congr_left fun step _ => ?_)
    simp [OpStep.relabel, List.countP_map, Function.comp_def]

end OpStep

/-! ## Reductions -/

/-- **A reduction reads its variables and what it has computed before**, and so does whoever reads
its result. -/
theorem Expr.grounded_reduce (scheme : RegisterScheme ρ) (read : String → ρ) :
    ∀ {e : Expr} {known : Set ρ}, (∀ v ∈ e.names, read v ∈ known) → ∀ k : Nat,
      OpStep.Grounded known
          ((e.reduce scheme read k).computes.map fun c => ([.compute c] : OpStep ρ κ))
        ∧ ∀ r ∈ ((e.reduce scheme read k).result.operand scheme).name?,
            r ∈ known ∨ r ∈ (e.reduce scheme read k).computes.map Compute.out
  | .leaf o, known, h, k => by
      refine ⟨trivial, fun r hr => Or.inl ?_⟩
      cases o with
      | literal x => cases hr
      | name v =>
          cases hr
          exact h v (by simp [Expr.names, Expr.leaves, Operand.name?])
  | .node l op r, known, h, k => by
      rw [Expr.names_node, List.forall_mem_append] at h
      obtain ⟨hl, hlresult⟩ := grounded_reduce scheme read h.1 k
      have hread : ∀ v ∈ r.names,
          read v ∈ known ∪ {x | x ∈ (l.reduce scheme read k).computes.map Compute.out} :=
        fun v hv => Or.inl (h.2 v hv)
      obtain ⟨hr, hrresult⟩ :=
        grounded_reduce scheme read hread (l.reduce scheme read k).issued
      refine ⟨?_, fun x hx => Or.inr ?_⟩
      · rw [Expr.computes_reduce_node, List.map_append, List.map_append, OpStep.grounded_append,
          OpStep.grounded_append, OpStep.written_append, OpStep.written_map, OpStep.written_map]
        -- the operands are there already or have just been computed
        refine ⟨⟨hl, hr⟩, OpStep.reads_compute (fun x hx => ?_) (fun x hx => ?_), trivial⟩
        · exact (hlresult x hx).imp_right (List.mem_append_left _)
        · rcases hrresult x hx with (hknown | hx) | hx
          · exact Or.inl hknown
          · exact Or.inr (List.mem_append_left _ hx)
          · exact Or.inr (List.mem_append_right _ hx)
      · cases hx
        rw [Expr.computes_reduce_node, List.map_append]
        exact List.mem_append_right _ (List.mem_singleton_self _)

/-! ## Blocks -/

/-- The op-steps of a statement: the guard is opened, and the signal of the counter is computed. -/
lemma Statement.body_writes {scheme : RegisterScheme ρ} {raised : List String} {s : Statement}
    {body : Body ρ} (h : s.body scheme raised = .ok body) :
    body.labels = [] ∧ ∃ c, body.flatMap OpStep.computes = [c] ∧ c.out = scheme.signal s.out := by
  obtain ⟨_, o, _, _, rfl⟩ := Statement.body_eq_ok_iff.mp h
  exact ⟨rfl, _, rfl, rfl⟩

lemma Statement.orderly_body {scheme : RegisterScheme ρ} {raised : List String} {s : Statement}
    {body : Body ρ} (h : s.body scheme raised = .ok body) {known : Set ρ}
    (hguard : scheme.guard ∈ known) (hread : ∀ v ∈ s.names, scheme.read raised v ∈ known) :
    OpStep.Orderly known body := by
  obtain ⟨_, o, hamount, _, rfl⟩ := Statement.body_eq_ok_iff.mp h
  refine ⟨by simp [Statement.pulseSteps], rfl, ?_, ?_, trivial⟩
  · intro c hc
    cases hc
  · refine OpStep.reads_compute (fun x hx => Or.inl ?_) (fun x hx => Or.inl ?_)
    · cases hx
      exact hguard
    · cases o with
      | literal y => cases hx
      | name v =>
          cases hx
          exact hread v (by simp [Statement.names, hamount, Expr.names, Expr.leaves, Operand.name?])

/-- **The op-steps of a condition.**  It is computed as it is reduced, one compute after the other,
but the last shares its op-step with the opening of the guard; then the value is gated into the
first temp. -/
lemma Transition.conditional_eq (scheme : RegisterScheme ρ) (raised : List String)
    (target : StateId) (c : Expr) :
    ∃ (front : List (Compute ρ)) (last : Option (Compute ρ)), last.isNone = c.isLeaf
        ∧ (c.reduce scheme (scheme.read raised) 0).computes = front ++ last.toList
        ∧ Transition.conditional scheme raised target c
            = front.map (fun c => [.compute c])
              ++ (last.toList.map .compute ++ [.openGuard])
                :: Transition.gated scheme
                    ((c.reduce scheme (scheme.read raised) 0).result.operand scheme) 0 target := by
  cases c with
  | leaf o => exact ⟨[], none, rfl, rfl, rfl⟩
  | node l op r =>
      set left := l.reduce scheme (scheme.read raised) 0 with hleft
      set right := r.reduce scheme (scheme.read raised) left.issued with hright
      set node := Reduction.combine scheme op left right with hnode
      have hout : node.out = 0 :=
        Reduced.temp.inj (Expr.result_reduce scheme (scheme.read raised) (e := .node l op r) rfl 0)
      refine ⟨node.before, some node.compute, rfl, rfl, ?_⟩
      rw [Expr.result_reduce scheme _ rfl, Transition.conditional, ← hleft, ← hright, ← hnode, hout]
      rfl

/-- The op-step that opens the guard, with what is computed in it. -/
lemma OpStep.computes_opening (last : Option (Compute ρ)) :
    OpStep.computes (last.toList.map .compute ++ [.openGuard] : OpStep ρ κ) = last.toList := by
  cases last <;> rfl

lemma OpStep.countP_isOpenGuard_compute (computed : List (Compute ρ)) :
    (computed.map fun c => (.compute c : MicroOp ρ κ)).countP MicroOp.isOpenGuard = 0 := by
  simp [List.countP_eq_zero, MicroOp.isOpenGuard]

lemma OpStep.countP_isOpenGuard_map (computed : List (Compute ρ)) :
    (computed.map fun c => ([.compute c] : OpStep ρ κ)).flatten.countP MicroOp.isOpenGuard = 0 := by
  simp [List.countP_flatten, Function.comp_def, MicroOp.isOpenGuard]

/-- **A transition writes temps only.** -/
theorem Transition.body_writes {scheme : RegisterScheme ρ} {raised : List String} {t : Transition}
    {body : Body ρ} (h : t.body scheme raised = .ok body) :
    ∀ c ∈ body.flatMap OpStep.computes, ∃ n, c.out = scheme.temp n := by
  intro c hc
  rcases Transition.body_eq_ok_iff.mp h with ⟨_, rfl⟩ | ⟨e, _, _, rfl⟩
  · cases hc
  · obtain ⟨front, last, _, hcomputes, hbody⟩ :=
      Transition.conditional_eq scheme raised t.target e
    rw [hbody, List.flatMap_append, List.flatMap_cons, OpStep.flatMap_computes_map,
      OpStep.computes_opening, ← List.append_assoc, ← hcomputes, List.mem_append] at hc
    rcases hc with hc | hc
    · obtain ⟨k, _, _, hout⟩ := e.out_reduce scheme _ 0 c hc
      exact ⟨k, hout⟩
    · obtain rfl := List.mem_singleton.mp hc
      exact ⟨0, rfl⟩

/-- **What a transition branches on**: the guard if it has no condition, and otherwise a temp that
it has written. -/
theorem Transition.body_branches_on {scheme : RegisterScheme ρ} {raised : List String}
    {t : Transition} {body : Body ρ} (h : t.body scheme raised = .ok body) :
    ∃ r, body.getLast? = some [.branch r t.target]
      ∧ (t.condition = none → r = scheme.guard)
      ∧ (t.condition ≠ none → (∃ n, r = scheme.temp n) ∧ r ∈ OpStep.written body.dropLast) := by
  rcases Transition.body_eq_ok_iff.mp h with ⟨hcond, rfl⟩ | ⟨e, hcond, _, rfl⟩
  · exact ⟨scheme.guard, rfl, fun _ => rfl, fun hsome => absurd hcond hsome⟩
  · obtain ⟨front, last, _, _, hbody⟩ := Transition.conditional_eq scheme raised t.target e
    refine ⟨scheme.temp 0, ?_, ?_, fun _ => ⟨⟨0, rfl⟩, ?_⟩⟩
    · simp [hbody, Transition.gated]
    · intro hnone
      rw [hnone] at hcond
      cases hcond
    · simp [hbody, Transition.gated, OpStep.written]

lemma Transition.orderly_body {scheme : RegisterScheme ρ} {raised : List String} {t : Transition}
    {body : Body ρ} (h : t.body scheme raised = .ok body) {known : Set ρ}
    (hguard : scheme.guard ∈ known) (hread : ∀ v ∈ t.names, scheme.read raised v ∈ known) :
    OpStep.Orderly known body := by
  rcases Transition.body_eq_ok_iff.mp h with ⟨_, rfl⟩ | ⟨e, hcond, _, rfl⟩
  · refine ⟨by simp, rfl, ?_, ?_, trivial⟩
    · intro c hc
      cases hc
    · intro c hc
      cases hc
  · obtain ⟨front, last, _, hcomputes, hbody⟩ :=
      Transition.conditional_eq scheme raised t.target e
    have hnames : ∀ v ∈ e.names, scheme.read raised v ∈ known := by
      intro v hv
      exact hread v (by rwa [Transition.names, hcond])
    obtain ⟨hreduce, hresult⟩ := Expr.grounded_reduce (κ := StateId) scheme _ hnames 0
    rw [hcomputes, List.map_append, OpStep.grounded_append] at hreduce
    rw [hbody]
    refine ⟨?_, ?_, ?_⟩
    · simp [Transition.gated, or_imp, forall_and]
    · rw [List.flatten_append, List.countP_append, OpStep.countP_isOpenGuard_map, List.flatten_cons,
        List.append_assoc, List.countP_append, OpStep.countP_isOpenGuard_compute]
      rfl
    · rw [OpStep.grounded_append]
      refine ⟨hreduce.1, ?_, ?_, ?_, trivial⟩
      · -- the last compute reads what the others have left, as it does on its own
        intro c hc
        rw [OpStep.computes_opening, Option.mem_toList] at hc
        cases hc
        exact hreduce.2.1 c (List.mem_singleton_self c)
      · refine OpStep.reads_compute (fun x hx => ?_) (fun x hx => ?_)
        · rw [OpStep.written_map, OpStep.written, List.flatMap_singleton, OpStep.computes_opening]
          rcases hresult x hx with hknown | hcomputed
          · exact Or.inl (Or.inl hknown)
          · rw [hcomputes, List.map_append, List.mem_append] at hcomputed
            exact hcomputed.imp Or.inr (fun hlast => hlast)
        · cases hx
          exact Or.inl (Or.inl hguard)
      · intro c hc
        cases hc

/-! ## Blocks of a program -/

/-- The registers that a state with the variables `names` may read without having written them:
those of its variables, signals and the guard, but no temps. -/
def RegisterScheme.external (scheme : RegisterScheme ρ) (names : List String) : Set ρ :=
  {r | ∃ x : Register, x.IsOf names ∧ (∀ n, x ≠ .temp n) ∧ scheme.render x = r}

lemma RegisterScheme.guard_mem_external (scheme : RegisterScheme ρ) (names : List String) :
    scheme.guard ∈ scheme.external names :=
  ⟨.guard, trivial, by simp, rfl⟩

lemma RegisterScheme.read_mem_external (scheme : RegisterScheme ρ) (raised : List String)
    {names : List String} {v : String} (hv : v ∈ names) :
    scheme.read raised v ∈ scheme.external names := by
  by_cases hmem : v ∈ raised
  · exact ⟨.signal v, trivial, by simp, (scheme.read_of_mem hmem).symm⟩
  · exact ⟨.user v, hv, by simp, (scheme.read_of_not_mem hmem).symm⟩

/-- The statement that a body belongs to; the statements before it have raised their counters. -/
lemma Statement.exists_of_bodies {scheme : RegisterScheme ρ} :
    ∀ {statements : List Statement} {raised : List String} {bodies : List (Body ρ)},
      Statement.bodies scheme raised statements = .ok bodies →
        ∀ {j : Nat} {body : Body ρ}, bodies[j]? = some body →
          ∃ s, statements[j]? = some s
            ∧ s.body scheme (((statements.take j).map Statement.out).reverse ++ raised) = .ok body
  | [], _, _, h, j, body, hbody => by
      cases h
      cases hbody
  | s :: rest, raised, bodies, h, j, body, hbody => by
      simp only [Statement.bodies, bind_eq_ok_iff] at h
      obtain ⟨first, hfirst, others, hothers, h⟩ := h
      cases h
      cases j with
      | zero =>
          cases hbody
          exact ⟨s, rfl, hfirst⟩
      | succ j =>
          obtain ⟨s', hs', hcompiled⟩ := Statement.exists_of_bodies hothers hbody
          exact ⟨s', hs', by simpa using hcompiled⟩

/-- What a block computes. -/
def Block.computes (b : Block ρ) : List (Compute ρ) := b.steps.flatMap OpStep.computes

/-- Where a block branches to. -/
def Block.branches (b : Block ρ) : List Address := b.steps.flatMap OpStep.labels

/-- A block computes what its body computes. -/
lemma Block.computes_of_relabel {b : Block ρ} {body : Body ρ} {f : StateId → Address}
    (h : b.steps = body.map (OpStep.relabel f)) : b.computes = body.flatMap OpStep.computes := by
  rw [Block.computes, h, OpStep.flatMap_computes_relabel]

namespace Lowered

variable {scheme : RegisterScheme ρ} {m : Machine τ} {p : Program ρ τ}

/-- **A block is that of a statement or that of a transition**, with the targets filled in. -/
theorem block_cases (h : Lowered scheme m p) {i j : Nat} {s : State} {q : ProgramState ρ}
    {b : Block ρ} (hs : m.states[i]? = some s) (hq : p.states[i]? = some q)
    (hb : q.blocks[j]? = some b) :
    ∃ body : Body ρ, b.steps = body.map (OpStep.relabel (targets m p))
      ∧ ((∃ st, s.statements[j]? = some st
            ∧ st.body scheme ((s.statements.take j).map Statement.out).reverse = .ok body)
        ∨ ∃ k t, j = s.statements.length + k ∧ s.transitions[k]? = some t
            ∧ t.body scheme (s.statements.map Statement.out) = .ok body) := by
  obtain ⟨statements, transitions, hstatements, htransitions, hlen, hblocks⟩ :=
    h.map_steps_blocks hs hq
  have hget := congrArg (·[j]?) hblocks
  simp only [List.getElem?_map, hb, Option.map_some] at hget
  obtain ⟨body, hbody, hsteps⟩ := Option.map_eq_some_iff.mp hget.symm
  refine ⟨body, hsteps.symm, ?_⟩
  rcases Nat.lt_or_ge j s.statements.length with hj | hj
  · rw [List.getElem?_append_left (by omega)] at hbody
    obtain ⟨st, hst, hcompiled⟩ := Statement.exists_of_bodies hstatements hbody
    rw [List.append_nil] at hcompiled
    exact Or.inl ⟨st, hst, hcompiled⟩
  · obtain ⟨k, rfl⟩ := Nat.exists_eq_add_of_le hj
    rw [List.getElem?_append_right (by omega), hlen, Nat.add_sub_cancel_left] at hbody
    rw [mapM_eq_ok_iff] at htransitions
    obtain ⟨t, ht, hcompiled⟩ := forall₂_getElem?_right htransitions hbody
    exact Or.inr ⟨k, t, rfl, ht, hcompiled⟩

/-- **The block of a statement** is compiled after the statements before it. -/
theorem exists_block_statement (h : Lowered scheme m p) {i j : Nat} {s : State}
    {q : ProgramState ρ} {st : Statement} (hs : m.states[i]? = some s)
    (hq : p.states[i]? = some q) (hst : s.statements[j]? = some st) :
    ∃ (b : Block ρ) (body : Body ρ), q.blocks[j]? = some b
      ∧ st.body scheme ((s.statements.take j).map Statement.out).reverse = .ok body
      ∧ b.steps = body.map (OpStep.relabel (targets m p)) := by
  have hj : j < s.statements.length := (List.getElem?_eq_some_iff.mp hst).1
  have hlt : j < q.blocks.length := by rw [h.length_blocks hs hq]; omega
  have hb : q.blocks[j]? = some q.blocks[j] := List.getElem?_eq_getElem hlt
  obtain ⟨body, hsteps, ⟨st', hst', hbody⟩ | ⟨k, t, rfl, _⟩⟩ := h.block_cases hs hq hb
  · rw [hst] at hst'
    cases hst'
    exact ⟨_, body, hb, hbody, hsteps⟩
  · omega

/-- **The block of a transition** is compiled after all statements. -/
theorem exists_block_transition (h : Lowered scheme m p) {i k : Nat} {s : State}
    {q : ProgramState ρ} {t : Transition} (hs : m.states[i]? = some s)
    (hq : p.states[i]? = some q) (ht : s.transitions[k]? = some t) :
    ∃ (b : Block ρ) (body : Body ρ), q.blocks[s.statements.length + k]? = some b
      ∧ t.body scheme (s.statements.map Statement.out) = .ok body
      ∧ b.steps = body.map (OpStep.relabel (targets m p)) := by
  have hk : k < s.transitions.length := (List.getElem?_eq_some_iff.mp ht).1
  have hlt : s.statements.length + k < q.blocks.length := by rw [h.length_blocks hs hq]; omega
  have hb : q.blocks[s.statements.length + k]? = some q.blocks[s.statements.length + k] :=
    List.getElem?_eq_getElem hlt
  obtain ⟨body, hsteps, ⟨st, hst, _⟩ | ⟨k', t', hk', ht', hbody⟩⟩ := h.block_cases hs hq hb
  · have hlt' := (List.getElem?_eq_some_iff.mp hst).1
    omega
  · obtain rfl : k = k' := by omega
    rw [ht] at ht'
    cases ht'
    exact ⟨_, body, hb, hbody, hsteps⟩

/-- **Every block is orderly**, and reads nothing from another block but signals. -/
theorem orderly_block (h : Lowered scheme m p) {i j : Nat} {s : State} {q : ProgramState ρ}
    {b : Block ρ} (hs : m.states[i]? = some s) (hq : p.states[i]? = some q)
    (hb : q.blocks[j]? = some b) : OpStep.Orderly (scheme.external s.names) b.steps := by
  have hguard := scheme.guard_mem_external s.names
  obtain ⟨body, hsteps, ⟨st, hst, hbody⟩ | ⟨k, t, _, ht, hbody⟩⟩ := h.block_cases hs hq hb
  · rw [hsteps]
    refine (Statement.orderly_body hbody hguard fun v hv => ?_).relabel _
    refine scheme.read_mem_external _ (List.mem_append_left _ ?_)
    exact List.mem_flatMap.mpr ⟨st, List.mem_of_getElem? hst, hv⟩
  · rw [hsteps]
    refine (Transition.orderly_body hbody hguard fun v hv => ?_).relabel _
    refine scheme.read_mem_external _ (List.mem_append_right _ ?_)
    exact List.mem_flatMap.mpr ⟨t, List.mem_of_getElem? ht, hv⟩

/-- **The block of a statement** computes the signal of its counter, and nothing else. -/
theorem computes_statement (h : Lowered scheme m p) {i j : Nat} {s : State} {q : ProgramState ρ}
    {b : Block ρ} {st : Statement} (hs : m.states[i]? = some s) (hq : p.states[i]? = some q)
    (hb : q.blocks[j]? = some b) (hst : s.statements[j]? = some st) :
    b.branches = [] ∧ ∃ c, b.computes = [c] ∧ c.out = scheme.signal st.out := by
  obtain ⟨b', body, hb', hbody, hsteps⟩ := h.exists_block_statement hs hq hst
  rw [hb] at hb'
  cases hb'
  obtain ⟨hlabels, c, hc, hout⟩ := Statement.body_writes hbody
  refine ⟨?_, c, (Block.computes_of_relabel hsteps).trans hc, hout⟩
  rw [Block.branches, hsteps, OpStep.flatMap_labels_relabel, ← Body.labels, hlabels]
  rfl

/-- **The block of a transition** computes temps, and branches on one of them or on the guard. -/
theorem computes_transition (h : Lowered scheme m p) {i k : Nat} {s : State} {q : ProgramState ρ}
    {b : Block ρ} {t : Transition} (hs : m.states[i]? = some s) (hq : p.states[i]? = some q)
    (hb : q.blocks[s.statements.length + k]? = some b) (ht : s.transitions[k]? = some t) :
    (∀ c ∈ b.computes, ∃ n, c.out = scheme.temp n)
      ∧ ∃ r a, b.branches = [a] ∧ b.steps.getLast? = some [.branch r a]
          ∧ (t.condition = none → r = scheme.guard)
          ∧ (t.condition ≠ none →
              (∃ n, r = scheme.temp n) ∧ r ∈ OpStep.written b.steps.dropLast) := by
  obtain ⟨b', body, hb', hbody, hsteps⟩ := h.exists_block_transition hs hq ht
  rw [hb] at hb'
  cases hb'
  obtain ⟨r, hlast, hnone, hsome⟩ := Transition.body_branches_on hbody
  refine ⟨?_, r, targets m p t.target, ?_, ?_, hnone, ?_⟩
  · rw [Block.computes_of_relabel hsteps]
    exact Transition.body_writes hbody
  · rw [Block.branches, hsteps, OpStep.flatMap_labels_relabel, ← Body.labels,
      Transition.labels_body hbody]
    rfl
  · rw [hsteps, List.getLast?_map, hlast]
    rfl
  · rw [hsteps, ← List.map_dropLast, OpStep.written_relabel]
    exact hsome

/-- Whatever a block computes goes into a signal or into a temp. -/
lemma out_cases (h : Lowered scheme m p) {i j : Nat} {s : State} {q : ProgramState ρ} {b : Block ρ}
    (hs : m.states[i]? = some s) (hq : p.states[i]? = some q) (hb : q.blocks[j]? = some b) :
    ∀ c ∈ b.computes, (∃ counter, c.out = scheme.signal counter) ∨ ∃ n, c.out = scheme.temp n := by
  intro c hc
  obtain ⟨_, _, ⟨st, hst, _⟩ | ⟨k, t, rfl, ht, _⟩⟩ := h.block_cases hs hq hb
  · obtain ⟨_, c', hcomputes, hout⟩ := h.computes_statement hs hq hb hst
    rw [hcomputes, List.mem_singleton] at hc
    rw [hc]
    exact Or.inl ⟨st.out, hout⟩
  · exact Or.inr ((h.computes_transition hs hq hb ht).1 c hc)

end Lowered

/-! ## Names -/

namespace Naming

variable {n : Naming}

/-- Whether a name is the stem of temps with letters behind it. -/
def IsTempName (n : Naming) (name : String) : Prop :=
  ∃ letters : List Char, letters ≠ [] ∧ (∀ l ∈ letters, 'A' ≤ l ∧ l ≤ 'Z')
    ∧ name = n.tempStem ++ String.ofList letters

lemma isTempName_temp (n : Naming) (index : Nat) : n.IsTempName (n.temp index) :=
  ⟨Suffix.letters index, Suffix.letters_ne_nil index, Suffix.letters_bounds index, rfl⟩

/-- A name behind one stem of a valid naming is not behind the other. -/
lemma startsWith_eq_false (hvalid : n.validate = .ok n) {name : String} :
    (startsWith name n.signalStem = true → startsWith name n.tempStem = false)
      ∧ (startsWith name n.tempStem = true → startsWith name n.signalStem = false) := by
  refine ⟨fun hsignal => ?_, fun htemp => ?_⟩
  · exact Bool.eq_false_of_not_eq_true fun htemp => not_startsWith_both hvalid hsignal htemp
  · exact Bool.eq_false_of_not_eq_true fun hsignal => not_startsWith_both hvalid hsignal htemp

/-- The guard is behind neither stem of a valid naming. -/
lemma ne_guard_of_startsWith (hvalid : n.validate = .ok n) {name : String}
    (h : startsWith name n.signalStem = true ∨ startsWith name n.tempStem = true) :
    name ≠ n.guard := by
  obtain ⟨_, _, _, hsignal, htemp⟩ := validate_eq_ok_iff.mp hvalid
  rintro rfl
  rcases h with h | h
  · rw [h] at hsignal
    cases hsignal
  · rw [h] at htemp
    cases htemp

/-- **What a state reads without having written it is not called like a temp**, unless one of its
variables is. -/
lemma startsWith_external (hvalid : n.validate = .ok n) {names : List String}
    (hnames : ∀ v ∈ names, startsWith v n.tempStem = false) {r : String}
    (hr : r ∈ n.scheme.external names) : startsWith r n.tempStem = false := by
  obtain ⟨x, hx, hne, rfl⟩ := hr
  cases x with
  | user v => exact hnames v hx
  | signal counter => exact (startsWith_eq_false hvalid).1 (n.startsWith_signal counter)
  | temp index => exact absurd rfl (hne index)
  | guard => exact (validate_eq_ok_iff.mp hvalid).2.2.2.2

end Naming

namespace Machine

/-- **The register discipline of lowered machines.**  Under a valid naming,

* the block of a statement computes once, into the signal of its counter, which is no temp, and does
  not branch;
* the block of a transition computes into names made of the stem of temps and letters, which are no
  signals; it branches once, in its last op-step, on the guard if there is no condition and
  otherwise on a temp that an op-step before has computed into;
* in every block all op-steps do something, the guard is opened once, and no compute overwrites it;
* if no variable of the state is called like a temp, whatever a block reads that is called like one,
  an earlier op-step of the block has computed. -/
theorem lower_register_discipline {n : Naming} (hvalid : n.validate = .ok n) {m : Machine τ}
    {p : Program String τ} (hlower : m.lower n.scheme = .ok p) :
    p.states.length = m.states.length
    ∧ ∀ (i : Nat) (s : State) (q : ProgramState String), m.states[i]? = some s →
        p.states[i]? = some q →
        q.blocks.length = s.statements.length + s.transitions.length
        ∧ ∀ (j : Nat) (b : Block String), q.blocks[j]? = some b →
            (∀ st, s.statements[j]? = some st →
              (∃ c, b.computes = [c] ∧ c.out = n.signalStem ++ st.out
                ∧ Naming.startsWith c.out n.tempStem = false)
              ∧ b.branches = [])
            ∧ (∀ k t, j = s.statements.length + k → s.transitions[k]? = some t →
                (∀ c ∈ b.computes,
                  n.IsTempName c.out ∧ Naming.startsWith c.out n.signalStem = false)
                ∧ ∃ r a, b.branches = [a] ∧ b.steps.getLast? = some [.branch r a]
                    ∧ (t.condition = none → r = n.guard)
                    ∧ (t.condition ≠ none →
                        n.IsTempName r ∧ r ∈ OpStep.written b.steps.dropLast))
            ∧ (∀ step ∈ b.steps, step ≠ [])
            ∧ b.steps.flatten.countP MicroOp.isOpenGuard = 1
            ∧ (∀ c ∈ b.computes, c.out ≠ n.guard)
            ∧ ((∀ v ∈ s.names, Naming.startsWith v n.tempStem = false) →
                ∀ (k : Nat) (step : OpStep String Address), b.steps[k]? = some step →
                  ∀ c ∈ step.computes, ∀ r ∈ c.sources,
                    Naming.startsWith r n.tempStem = true →
                      r ∈ OpStep.written (b.steps.take k)) := by
  have hlow := lower_eq_ok hlower
  refine ⟨hlow.states.length_eq.symm, fun i s q hs hq => ⟨hlow.length_blocks hs hq, ?_⟩⟩
  intro j b hb
  have horderly := hlow.orderly_block hs hq hb
  refine ⟨?_, ?_, horderly.ne_nil, horderly.one_guard, ?_, ?_⟩
  · intro st hst
    obtain ⟨hbranches, c, hc, hout⟩ := hlow.computes_statement hs hq hb hst
    refine ⟨⟨c, hc, hout, ?_⟩, hbranches⟩
    rw [hout]
    exact (Naming.startsWith_eq_false hvalid).1 (n.startsWith_signal st.out)
  · rintro k t rfl ht
    obtain ⟨hcomputes, r, a, hbranches, hlast, hnone, hsome⟩ :=
      hlow.computes_transition hs hq hb ht
    refine ⟨fun c hc => ?_, r, a, hbranches, hlast, hnone, fun hcond => ?_⟩
    · obtain ⟨index, hout⟩ := hcomputes c hc
      rw [hout]
      exact ⟨n.isTempName_temp index,
        (Naming.startsWith_eq_false hvalid).2 (n.startsWith_temp index)⟩
    · obtain ⟨⟨index, hr⟩, hwritten⟩ := hsome hcond
      rw [hr] at hwritten ⊢
      exact ⟨n.isTempName_temp index, hwritten⟩
  · intro c hc
    refine Naming.ne_guard_of_startsWith hvalid ?_
    rcases hlow.out_cases hs hq hb c hc with ⟨counter, hout⟩ | ⟨index, hout⟩
    · rw [hout]
      exact Or.inl (n.startsWith_signal counter)
    · rw [hout]
      exact Or.inr (n.startsWith_temp index)
  · intro hnames k step hstep c hc r hr htemp
    rcases horderly.grounded.mem_of_read hstep c hc r hr with hknown | hwritten
    · rw [Naming.startsWith_external hvalid hnames hknown] at htemp
      cases htemp
    · exact hwritten

end Machine

/-- A naming whose guard is the start of its temps. -/
def Naming.terse : Naming := { guard := "T", signalStem := "S", tempStem := "T_" }

/-- A machine with variables that are called like the guard and like the signals of others. -/
def Machine.murky : Machine Unit :=
  { timers := []
    states :=
      [ { id := .symbolic "murky"
          statements :=
            [.increment "X" (.leaf (.name "SX")), .increment "SX" (.leaf (.name "X"))]
          transitions :=
            [ { condition :=
                  some (.node (.node (.leaf (.name "T")) .add (.leaf (.name "X"))) .gt
                    (.node (.leaf (.name "SX")) .mul (.leaf (.literal 2))))
                target := .symbolic "murky" },
              { condition := none, target := .symbolic "murky" } ] } ] }

theorem Machine.lower_register_discipline_murky :
    ∃ (p : Program String Unit) (q : ProgramState String) (pulse jump : Block String),
      Machine.murky.lower Naming.terse.scheme = .ok p ∧ p.states[0]? = some q
      ∧ q.blocks[1]? = some pulse ∧ (∃ c, pulse.computes = [c] ∧ c.out = "SSX")
      ∧ q.blocks[2]? = some jump
      ∧ (∃ r a, jump.steps.getLast? = some [.branch r a]
          ∧ r ∈ OpStep.written jump.steps.dropLast)
      ∧ ∀ (k : Nat) (step : OpStep String Address), jump.steps[k]? = some step →
          ∀ c ∈ step.computes, ∀ r ∈ c.sources, Naming.startsWith r "T_" = true →
            r ∈ OpStep.written (jump.steps.take k) := by
  have hlower : (fun p => p.states.map fun q => q.blocks.length)
      <$> Machine.murky.lower Naming.terse.scheme = .ok [4] := by cbv
  obtain ⟨p, hp, _⟩ := map_eq_ok_iff.mp hlower
  obtain ⟨q, hq⟩ := (lower_eq_ok hp).exists_placed (i := 0) rfl
  obtain ⟨hlength, hblocks⟩ := (lower_register_discipline rfl hp).2 0 _ q rfl hq
  have hpulse : q.blocks[1]? = some (q.blocks.get ⟨1, by rw [hlength]; decide⟩) := by simp
  have hjump : q.blocks[2]? = some (q.blocks.get ⟨2, by rw [hlength]; decide⟩) := by simp
  obtain ⟨hstatement, _⟩ := hblocks 1 _ hpulse
  obtain ⟨⟨c, hc, hout, _⟩, _⟩ := hstatement _ rfl
  obtain ⟨_, htransition, _, _, _, hreads⟩ := hblocks 2 _ hjump
  obtain ⟨_, r, a, _, hlast, _, hsome⟩ := htransition 0 _ rfl rfl
  exact ⟨p, q, _, _, hp, hq, hpulse, ⟨c, hc, hout⟩, hjump,
    ⟨r, a, hlast, (hsome (by simp)).2⟩, hreads (by decide)⟩

end Microstep
