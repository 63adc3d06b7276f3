import Microstep.Proofs.Postorder

/-!
# Where a counter is read from its signal

A state reads a counter from its signal once it has raised it, and from the counter itself before
that.  A statement is compiled before its own counter counts as raised, so the first `X += X` reads
the counter and the second one the signal (`State.raisedBefore`).  Transitions come after all
statements (`State.raised`).  What other states raise does not matter.

`Naming.ReadAs` says how one operand is read.  The name of a signal is not looked up again, even if
it is the name of a counter that has been raised as well.

Which operand of a block belongs to which operand of the source is clear for statements.  The leaves
of a condition are found in the computes that carry out the operations they belong to, in post-order
(`Expr.carriesOut_reduce`).
-/

namespace Microstep

variable {ρ τ : Type}

/-! ## How operands are read -/

/-- **How an operand is read** where the counters `raised` have signals: a literal is taken as it
is, and a variable is read from its signal exactly if it is one of these counters. -/
inductive Naming.ReadAs (n : Naming) (raised : Set String) : Operand String → Operand String → Prop
  | literal (x : Int64) : ReadAs n raised (.literal x) (.literal x)
  | signal {v : String} : v ∈ raised → ReadAs n raised (.name v) (.name (n.signalStem ++ v))
  | plain {v : String} : v ∉ raised → ReadAs n raised (.name v) (.name v)

namespace Naming

variable {n : Naming} {raised : Set String} {v : String} {o' : Operand String}

lemma ReadAs.eq_signal (h : n.ReadAs raised (.name v) o') (hv : v ∈ raised) :
    o' = .name (n.signalStem ++ v) := by
  cases h with
  | signal _ => rfl
  | plain hno => exact absurd hv hno

lemma ReadAs.eq_plain (h : n.ReadAs raised (.name v) o') (hv : v ∉ raised) : o' = .name v := by
  cases h with
  | signal hmem => exact absurd hmem hv
  | plain _ => rfl

/-- A variable is read from its signal if and only if its counter has been raised, as long as
signals have a stem. -/
lemma ReadAs.eq_signal_iff (h : n.ReadAs raised (.name v) o') (hstem : n.signalStem ≠ "") :
    o' = .name (n.signalStem ++ v) ↔ v ∈ raised := by
  refine ⟨fun heq => ?_, h.eq_signal⟩
  by_contra hv
  rw [h.eq_plain hv, Operand.name.injEq, eq_comm, String.append_eq_right_iff] at heq
  exact hstem heq

/-- The registers of a naming are read as they should be. -/
lemma readAs_map (n : Naming) {outs : List String} (h : ∀ v, v ∈ outs ↔ v ∈ raised)
    (o : Operand String) : n.ReadAs raised o (o.map (n.scheme.read outs)) := by
  cases o with
  | literal x => exact .literal x
  | name v =>
      by_cases hv : v ∈ outs
      · rw [Operand.map, n.scheme.read_of_mem hv]
        exact .signal ((h v).mp hv)
      · rw [Operand.map, n.scheme.read_of_not_mem hv]
        exact .plain fun hmem => hv ((h v).mpr hmem)

end Naming

/-! ## What has been raised -/

namespace State

/-- The counters that the first `j` statements of a state raise. -/
def raisedBefore (s : State) (j : Nat) : Set String :=
  {v | ∃ i < j, ∃ st, s.statements[i]? = some st ∧ st.out = v}

/-- The counters that a state raises. -/
def raised (s : State) : Set String := {v | ∃ st ∈ s.statements, st.out = v}

lemma mem_reverse_take_iff (s : State) (j : Nat) (v : String) :
    v ∈ ((s.statements.take j).map Statement.out).reverse ↔ v ∈ s.raisedBefore j := by
  rw [List.mem_reverse, List.mem_map]
  constructor
  · rintro ⟨st, hst, rfl⟩
    obtain ⟨i, hi⟩ := List.mem_iff_getElem?.mp hst
    rw [List.getElem?_take] at hi
    split_ifs at hi with hlt
    exact ⟨i, hlt, st, hi, rfl⟩
  · rintro ⟨i, hlt, st, hst, rfl⟩
    refine ⟨st, List.mem_iff_getElem?.mpr ⟨i, ?_⟩, rfl⟩
    rwa [List.getElem?_take, if_pos hlt]

lemma mem_outs_iff (s : State) (v : String) :
    v ∈ s.statements.map Statement.out ↔ v ∈ s.raised :=
  List.mem_map

end State

/-! ## Blocks -/

/-- A statement reads its amount. -/
lemma Statement.body_reads {scheme : RegisterScheme ρ} {raised : List String} {s : Statement}
    {body : Body ρ} (h : s.body scheme raised = .ok body) :
    ∃ (x : Compute ρ) (o : Operand String), body.flatMap OpStep.computes = [x]
      ∧ s.amount = .leaf o ∧ x.right = o.map (scheme.read raised) := by
  obtain ⟨_, o, hamount, _, rfl⟩ := Statement.body_eq_ok_iff.mp h
  exact ⟨_, o, rfl, hamount, rfl⟩

/-- A condition reads its operands, a single one in the gate and the others where the operations are
carried out that they belong to. -/
lemma Transition.conditional_reads (scheme : RegisterScheme ρ) (raised : List String)
    (target : StateId) (c : Expr) :
    ∃ (computed : List (Compute ρ)) (gate : Compute ρ),
      (conditional scheme raised target c).flatMap OpStep.computes = computed ++ [gate]
      ∧ List.Forall₂ (Compute.CarriesOut scheme (scheme.read raised)) c.postorder computed
      ∧ ∀ o, c = .leaf o → gate.left = o.map (scheme.read raised) := by
  refine ⟨_, _, Transition.computes_conditional scheme raised target c,
    c.carriesOut_reduce scheme _ 0, ?_⟩
  rintro o rfl
  rfl

/-! ## Programs -/

/-- **Signals are in scope exactly where their counters have been raised.**  In a lowered machine,

* the block of a statement reads its amount on the right, from a signal exactly if an earlier
  statement of the same state raises a counter of that name;
* the block of a transition carries out the operations of its condition in post-order and reads
  their single operands on the same sides; a condition that is a single operand is read on the left
  of the gate.  In both cases it is read from a signal exactly if a statement of the same state
  raises a counter of that name.

A register that is read is the signal of a variable if and only if its counter has been raised. -/
theorem Machine.lower_scopes_signals (n : Naming) {m : Machine τ} {p : Program String τ}
    (hlower : m.lower n.scheme = .ok p) :
    p.states.length = m.states.length
    ∧ (∀ (i : Nat) (s : State) (q : ProgramState String), m.states[i]? = some s →
        p.states[i]? = some q →
        (∀ (j : Nat) (st : Statement), s.statements[j]? = some st →
          ∃ (b : Block String) (x : Compute String) (o : Operand String),
            q.blocks[j]? = some b ∧ b.computes = [x] ∧ st.amount = .leaf o
            ∧ n.ReadAs (s.raisedBefore j) o x.right)
        ∧ ∀ (k : Nat) (t : Transition), s.transitions[k]? = some t →
            ∃ b : Block String, q.blocks[s.statements.length + k]? = some b
              ∧ (t.condition = none → b.computes = [])
              ∧ ∀ c, t.condition = some c →
                  ∃ (computed : List (Compute String)) (gate : Compute String),
                    b.computes = computed ++ [gate]
                    ∧ computed.length = c.postorder.length
                    ∧ (∀ o, c = .leaf o → n.ReadAs s.raised o gate.left)
                    ∧ ∀ (d : Nat) (op : Expr.Operation), c.postorder[d]? = some op →
                        ∃ x, computed[d]? = some x ∧ x.operator = op.operator
                          ∧ (∀ o, op.left = .leaf o → n.ReadAs s.raised o x.left)
                          ∧ ∀ o, op.right = .leaf o → n.ReadAs s.raised o x.right)
    ∧ (n.signalStem ≠ "" → ∀ (raised : Set String) (v : String) (o : Operand String),
        n.ReadAs raised (.name v) o → (o = .name (n.signalStem ++ v) ↔ v ∈ raised)) := by
  have hlow := lower_eq_ok hlower
  refine ⟨hlow.states.length_eq.symm, fun i s q hs hq => ⟨?_, ?_⟩,
    fun hstem raised v o h => h.eq_signal_iff hstem⟩
  · intro j st hst
    obtain ⟨b, body, hb, hbody, hsteps⟩ := hlow.exists_block_statement hs hq hst
    obtain ⟨x, o, hx, hamount, hright⟩ := Statement.body_reads hbody
    refine ⟨b, x, o, hb, (Block.computes_of_relabel hsteps).trans hx, hamount, ?_⟩
    rw [hright]
    exact n.readAs_map (s.mem_reverse_take_iff j) o
  · intro k t ht
    obtain ⟨b, body, hb, hbody, hsteps⟩ := hlow.exists_block_transition hs hq ht
    have hcomputes := Block.computes_of_relabel hsteps
    have hread := n.readAs_map s.mem_outs_iff
    rcases Transition.body_eq_ok_iff.mp hbody with ⟨hnone, rfl⟩ | ⟨c, hsome, _, rfl⟩
    · refine ⟨b, hb, fun _ => hcomputes, fun c hc => ?_⟩
      rw [hnone] at hc
      cases hc
    · obtain ⟨computed, gate, hall, hcarries, hgate⟩ :=
        Transition.conditional_reads n.scheme (s.statements.map Statement.out) t.target c
      refine ⟨b, hb, fun hnone => ?_, fun c' hc' => ?_⟩
      · rw [hnone] at hsome
        cases hsome
      · rw [hsome] at hc'
        cases hc'
        refine ⟨computed, gate, hcomputes.trans hall, hcarries.length_eq.symm, ?_, ?_⟩
        · intro o ho
          rw [hgate o ho]
          exact hread o
        · intro d op hop
          obtain ⟨x, hx, hcarry⟩ := forall₂_getElem? hcarries hop
          refine ⟨x, hx, hcarry.operator_eq, fun o ho => ?_, fun o ho => ?_⟩
          · rw [hcarry.left_leaf o ho]
            exact hread o
          · rw [hcarry.right_leaf o ho]
            exact hread o

/-- A state whose counters include one that is called like the signal of another, and a second state
that raises a counter which the first one reads. -/
def Machine.echo : Machine Unit :=
  { timers := []
    states :=
      [ { id := .symbolic "echo"
          statements :=
            [ .increment "X" (.leaf (.name "X")), .increment "signal_X" (.leaf (.name "X")),
              .increment "Y" (.leaf (.name "signal_X")) ]
          transitions :=
            [ { condition := some (.node (.leaf (.name "X")) .gt (.leaf (.name "Z")))
                target := .symbolic "other" },
              { condition := some (.leaf (.name "Y")), target := .symbolic "echo" } ] },
        { id := .symbolic "other"
          statements := [.increment "Z" (.leaf (.literal 1))]
          transitions := [] } ] }

theorem Machine.lower_scopes_signals_echo :
    ∃ (p : Program String Unit) (q : ProgramState String) (first second jump : Block String)
      (x y z : Compute String),
      Machine.echo.lower Naming.standard.scheme = .ok p ∧ p.states[0]? = some q
      ∧ q.blocks[0]? = some first ∧ first.computes = [x] ∧ x.right = .name "X"
      ∧ q.blocks[1]? = some second ∧ second.computes = [y] ∧ y.right = .name "signal_X"
      ∧ q.blocks[3]? = some jump ∧ jump.computes[0]? = some z
      ∧ z.left = .name "signal_X" ∧ z.right = .name "Z" := by
  have hlower :
      (fun p => p.states.length) <$> Machine.echo.lower Naming.standard.scheme = .ok 2 := by cbv
  obtain ⟨p, hp, _⟩ := map_eq_ok_iff.mp hlower
  obtain ⟨q, hq⟩ := (lower_eq_ok hp).exists_placed (i := 0) rfl
  obtain ⟨hstatements, htransitions⟩ := (lower_scopes_signals Naming.standard hp).2.1 0 _ q rfl hq
  obtain ⟨first, x, o, hfirst, hx, ho, hread⟩ := hstatements 0 _ rfl
  obtain rfl : .name "X" = o := Expr.leaf.inj ho
  obtain ⟨second, y, o, hsecond, hy, ho, hread'⟩ := hstatements 1 _ rfl
  obtain rfl : .name "X" = o := Expr.leaf.inj ho
  obtain ⟨jump, hjump, _, hcondition⟩ := htransitions 0 _ rfl
  obtain ⟨computed, gate, hcomputes, hlength, _, hoperations⟩ := hcondition _ rfl
  obtain ⟨z, hz, _, hleft, hright⟩ := hoperations 0 _ rfl
  have hlt : 0 < computed.length := by rw [hlength]; decide
  refine ⟨p, q, first, second, jump, x, y, z, hp, hq, hfirst, hx, ?_, hsecond, hy, ?_, hjump, ?_,
    ?_, ?_⟩
  · refine hread.eq_plain ?_
    rintro ⟨i, hi, _⟩
    exact absurd hi (Nat.not_lt_zero i)
  · exact hread'.eq_signal ⟨0, by decide, _, rfl, rfl⟩
  · rwa [hcomputes, List.getElem?_append_left hlt]
  · exact (hleft _ rfl).eq_signal ⟨_, List.mem_cons_self .., rfl⟩
  · refine (hright _ rfl).eq_plain ?_
    show ¬ ∃ st ∈ State.statements _, st.out = "Z"
    decide

end Microstep
