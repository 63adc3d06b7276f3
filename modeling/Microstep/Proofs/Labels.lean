import Microstep.Proofs.Lowering

/-!
# Which labels are asked about

The targets of an op-step are replaced by what a mapping makes of them.  The mapping may keep a
state from one target to the next, and it may reject a target, in which case the replacement is
called off.  So it matters which targets it is asked about, and in what order.

A mapping is first looked at by itself, on a list of labels: either it answers all of them one after
the other (`Mapping.Answers`), or it answers some and rejects the next one
(`Mapping.answers_or_rejects`).  The labels of an op-step are such a list, and either case decides
what becomes of the op-step (`OpStep.run_mapLabels_of_answers`, `OpStep.run_mapLabels_of_rejects`).

To see what a mapping is asked about, it is made to note the labels down (`Mapping.noting`).  This
is a mapping too, so nothing has to be proved twice.
-/

namespace Microstep

variable {ρ κ κ' κ'' ε σ α β γ : Type}

/-! ## Mappings with a state -/

section

variable {x : ExceptT ε (StateM σ) α} {k : α → ExceptT ε (StateM σ) β} {s s' : σ}

lemma run_bind_of_ok {a : α} (h : x.run.run s = (.ok a, s')) :
    (x >>= k).run.run s = (k a).run.run s' := by
  simp only [ExceptT.run_bind, StateT.run_bind, h]
  rfl

lemma run_bind_of_error {e : ε} (h : x.run.run s = (.error e, s')) :
    (x >>= k).run.run s = (.error e, s') := by
  simp only [ExceptT.run_bind, StateT.run_bind, h]
  rfl

end

/-- A mapping of labels that keeps a state and may reject a label. -/
abbrev Mapping (σ ε κ κ' : Type) := κ → ExceptT ε (StateM σ) κ'

namespace Mapping

variable {f : Mapping σ ε κ κ'} {s s' : σ} {labels : List κ} {answers : List κ'}

/-- **A mapping answers labels**, one after the other.  The state on the left is the one it is in
before the first label, and the state on the right the one it is in after the last. -/
inductive Answers (f : Mapping σ ε κ κ') : σ → List κ → List κ' → σ → Prop
  | nil (s : σ) : Answers f s [] [] s
  | cons {s s₁ s₂ : σ} {label : κ} {answer : κ'} {labels : List κ} {answers : List κ'}
      (first : (f label).run.run s = (.ok answer, s₁))
      (rest : Answers f s₁ labels answers s₂) :
      Answers f s (label :: labels) (answer :: answers) s₂

lemma Answers.length_eq (h : f.Answers s labels answers s') : answers.length = labels.length := by
  induction h with
  | nil s => rfl
  | cons _ _ ih => simp [ih]

/-- **Either all labels are answered, or there is one that is rejected after all before it have been
answered.** -/
theorem answers_or_rejects (f : Mapping σ ε κ κ') (labels : List κ) (s : σ) :
    (∃ answers s', f.Answers s labels answers s')
      ∨ ∃ before label after answers s₁ e s', labels = before ++ label :: after
          ∧ f.Answers s before answers s₁ ∧ (f label).run.run s₁ = (.error e, s') := by
  -- each call leaves another state for the rest, so the claim is about every state
  induction labels generalizing s with
  | nil => exact Or.inl ⟨[], s, Answers.nil s⟩
  | cons label labels ih =>
      cases hcall : (f label).run.run s with
      | mk outcome s₁ =>
          cases outcome with
          | error e => exact Or.inr ⟨[], label, labels, [], s, e, s₁, rfl, Answers.nil s, hcall⟩
          | ok answer =>
              rcases ih s₁ with
                ⟨answers, s', h⟩ | ⟨before, l, after, answers, s₂, e, s', rfl, h, he⟩
              · exact Or.inl ⟨answer :: answers, s', Answers.cons hcall h⟩
              · exact Or.inr ⟨label :: before, l, after, answer :: answers, s₂, e, s', rfl,
                  Answers.cons hcall h, he⟩

/-- A mapping that also notes down which labels it is asked about. -/
def noting (f : Mapping σ ε κ κ') : Mapping (σ × List κ) ε κ κ' := fun label =>
  ExceptT.mk fun s =>
    (((f label).run.run s.1).1, ((f label).run.run s.1).2, s.2 ++ [label])

lemma run_noting {label : κ} {outcome : Except ε κ'} (h : (f label).run.run s = (outcome, s'))
    (asked : List κ) :
    (f.noting label).run.run (s, asked) = (outcome, s', asked ++ [label]) := by
  show (((f label).run.run s).1, ((f label).run.run s).2, asked ++ [label]) = _
  rw [h]

/-- What is answered is noted down. -/
lemma Answers.noting (h : f.Answers s labels answers s') (asked : List κ) :
    f.noting.Answers (s, asked) labels answers (s', asked ++ labels) := by
  induction h generalizing asked with
  | nil s => simpa using Answers.nil (f := f.noting) (s, asked)
  | cons first _ ih => simpa using Answers.cons (run_noting first asked) (ih _)

end Mapping

/-! ## Op-steps -/

/-- **Micro-ops that differ in the target of a branch at most.** -/
inductive MicroOp.Alike : MicroOp ρ κ → MicroOp ρ κ' → Prop
  | openGuard : Alike .openGuard .openGuard
  | compute (c : Compute ρ) : Alike (.compute c) (.compute c)
  | branch (register : ρ) (target : κ) (target' : κ') :
      Alike (.branch register target) (.branch register target')

namespace OpStep

variable {f : Mapping σ ε κ κ'} {s s' : σ}

@[simp] lemma labels_nil : OpStep.labels ([] : OpStep ρ κ) = [] := rfl

@[simp] lemma labels_branch (register : ρ) (target : κ) (step : OpStep ρ κ) :
    OpStep.labels (.branch register target :: step) = target :: step.labels := rfl

/-- There is an op-step with any other targets, as many as there were. -/
lemma exists_alike (step : OpStep ρ κ) {answers : List κ'}
    (h : answers.length = step.labels.length) :
    ∃ step' : OpStep ρ κ', List.Forall₂ MicroOp.Alike step step' ∧ step'.labels = answers := by
  induction step generalizing answers with
  | nil => exact ⟨[], List.Forall₂.nil, (List.eq_nil_of_length_eq_zero h).symm⟩
  | cons op step ih =>
      cases op with
      | openGuard =>
          obtain ⟨step', halike, hlabels⟩ := ih h
          exact ⟨.openGuard :: step', halike.cons .openGuard, hlabels⟩
      | compute c =>
          obtain ⟨step', halike, hlabels⟩ := ih h
          exact ⟨.compute c :: step', halike.cons (.compute c), hlabels⟩
      | branch r target =>
          cases answers with
          | nil => simp at h
          | cons answer answers =>
              obtain ⟨step', halike, hlabels⟩ := ih (by simpa using h)
              exact ⟨.branch r answer :: step', halike.cons (.branch r target answer),
                by simp [hlabels]⟩

/-- A micro-op that comes through is followed by the rest of its op-step. -/
lemma run_mapLabels_cons_of_ok {op : MicroOp ρ κ} {op' : MicroOp ρ κ'}
    (h : (op.mapLabel f).run.run s = (.ok op', s')) (step : OpStep ρ κ) :
    (OpStep.mapLabels f (op :: step)).run.run s
      = (((step.mapLabels f).run.run s').1.map (op' :: ·), ((step.mapLabels f).run.run s').2) := by
  rw [mapLabels_cons, run_bind_of_ok h]
  cases hrest : (step.mapLabels f).run.run s' with
  | mk outcome s₁ =>
      cases outcome with
      | ok step' => exact run_bind_of_ok hrest
      | error e => exact run_bind_of_error hrest

lemma run_mapLabel_openGuard (f : Mapping σ ε κ κ') (s : σ) :
    ((.openGuard : MicroOp ρ κ).mapLabel f).run.run s = (.ok .openGuard, s) := rfl

lemma run_mapLabel_compute (f : Mapping σ ε κ κ') (c : Compute ρ) (s : σ) :
    ((.compute c : MicroOp ρ κ).mapLabel f).run.run s = (.ok (.compute c), s) := rfl

lemma run_mapLabel_branch_of_ok {target : κ} {answer : κ'}
    (h : (f target).run.run s = (.ok answer, s')) (register : ρ) :
    ((MicroOp.branch register target).mapLabel f).run.run s
      = (.ok (.branch register answer), s') :=
  run_bind_of_ok h

/-- **If all labels are answered, the answers take their places.** -/
theorem run_mapLabels_of_answers {step : OpStep ρ κ} {step' : OpStep ρ κ'}
    (halike : List.Forall₂ MicroOp.Alike step step')
    (h : f.Answers s step.labels step'.labels s') :
    (step.mapLabels f).run.run s = (.ok step', s') := by
  induction halike generalizing s with
  | nil =>
      cases h
      rfl
  | cons hop _ ih =>
      cases hop with
      | openGuard =>
          rw [run_mapLabels_cons_of_ok (run_mapLabel_openGuard f s), ih h]
          rfl
      | compute c =>
          rw [run_mapLabels_cons_of_ok (run_mapLabel_compute f c s), ih h]
          rfl
      | branch r target target' =>
          cases h with
          | cons first rest =>
              rw [run_mapLabels_cons_of_ok (run_mapLabel_branch_of_ok first r), ih rest]
              rfl

/-- **If a label is rejected, nothing after it is asked about.** -/
theorem run_mapLabels_of_rejects {step : OpStep ρ κ} {before after : List κ} {label : κ}
    {answers : List κ'} {s₁ : σ} {e : ε} (hlabels : step.labels = before ++ label :: after)
    (h : f.Answers s before answers s₁) (hreject : (f label).run.run s₁ = (.error e, s')) :
    (step.mapLabels f).run.run s = (.error e, s') := by
  induction step generalizing s before answers with
  | nil => simp at hlabels
  | cons op step ih =>
      cases op with
      | openGuard =>
          rw [run_mapLabels_cons_of_ok (run_mapLabel_openGuard f s), ih hlabels h]
          rfl
      | compute c =>
          rw [run_mapLabels_cons_of_ok (run_mapLabel_compute f c s), ih hlabels h]
          rfl
      | branch r target =>
          -- this target is the rejected one if no answered one is left before it
          rw [labels_branch] at hlabels
          cases h with
          | nil =>
              obtain ⟨rfl, _⟩ := List.cons.inj hlabels
              have hop : ((MicroOp.branch r target).mapLabel f).run.run s₁ = (.error e, s') :=
                run_bind_of_error hreject
              rw [mapLabels_cons]
              exact run_bind_of_error hop
          | cons first rest =>
              obtain ⟨rfl, hlater⟩ := List.cons.inj hlabels
              rw [run_mapLabels_cons_of_ok (run_mapLabel_branch_of_ok first r), ih hlater rest]
              rfl

end OpStep

/-! ## Mappings without a state -/

/-- Relations between lists element by element, one after the other. -/
lemma forall₂_comp_iff {R : α → β → Prop} {S : β → γ → Prop} {l : List α} {r : List γ} :
    (∃ m, List.Forall₂ R l m ∧ List.Forall₂ S m r)
      ↔ List.Forall₂ (fun a c => ∃ b, R a b ∧ S b c) l r := by
  constructor
  · rintro ⟨m, hlm, hmr⟩
    induction hlm generalizing r with
    | nil =>
        cases hmr
        exact List.Forall₂.nil
    | cons hab _ ih =>
        cases hmr with
        | cons hbc hrest => exact List.Forall₂.cons ⟨_, hab, hbc⟩ (ih hrest)
  · intro h
    induction h with
    | nil => exact ⟨[], List.Forall₂.nil, List.Forall₂.nil⟩
    | cons hac _ ih =>
        obtain ⟨b, hab, hbc⟩ := hac
        obtain ⟨m, hlm, hmr⟩ := ih
        exact ⟨b :: m, List.Forall₂.cons hab hlm, List.Forall₂.cons hbc hmr⟩

/-- Replacing a target twice is replacing it once. -/
lemma MicroOp.mapLabel_bind (f : κ → Except ε κ') (g : κ' → Except ε κ'') (op : MicroOp ρ κ) :
    op.mapLabel (fun l => f l >>= g) = op.mapLabel f >>= MicroOp.mapLabel g := by
  cases op <;> simp [MicroOp.mapLabel]

/-- **Replacing the targets of an op-step twice comes through exactly when replacing them once
does**, and gives the same op-step. -/
theorem OpStep.mapLabels_bind_eq_ok_iff (f : κ → Except ε κ') (g : κ' → Except ε κ'')
    {step : OpStep ρ κ} {step' : OpStep ρ κ''} :
    (step.mapLabels f >>= OpStep.mapLabels g) = .ok step'
      ↔ step.mapLabels (fun l => f l >>= g) = .ok step' := by
  simp only [OpStep.mapLabels, bind_eq_ok_iff, mapM_eq_ok_iff, MicroOp.mapLabel_bind,
    forall₂_comp_iff]

/-- **Targets are asked about from left to right, up to the first one that is rejected.**

Take an op-step, a mapping of labels with a state, and a state it starts in.

* If the mapping answers all the targets of the op-step, one after the other, the result is an
  op-step of the same length, alike in every micro-op, that has the answers for its targets; and the
  mapping was asked about all targets, once each.
* Otherwise it rejects a target after it has answered those before it.  Then the result is that
  rejection, and the mapping was asked about the targets up to this one and about no other.

In either case the mapping is left in the state that the calls have put it in.  If there is no
state, replacing targets by one mapping and then by another one is the same as replacing them once
by the two in a row, whenever either comes through. -/
theorem OpStep.mapLabels_asks (step : OpStep ρ κ) :
    (∀ (σ ε κ' : Type) (f : Mapping σ ε κ κ') (s : σ),
      (∃ (step' : OpStep ρ κ') (s' : σ),
          f.Answers s step.labels step'.labels s'
          ∧ step'.length = step.length ∧ List.Forall₂ MicroOp.Alike step step'
          ∧ (step.mapLabels f).run.run s = (.ok step', s')
          ∧ (step.mapLabels f.noting).run.run (s, []) = (.ok step', s', step.labels))
      ∨ ∃ (before after : List κ) (label : κ) (answers : List κ') (s₁ s' : σ) (e : ε),
          step.labels = before ++ label :: after
          ∧ f.Answers s before answers s₁ ∧ (f label).run.run s₁ = (.error e, s')
          ∧ (step.mapLabels f).run.run s = (.error e, s')
          ∧ (step.mapLabels f.noting).run.run (s, []) = (.error e, s', before ++ [label]))
    ∧ ∀ (ε κ' κ'' : Type) (f : κ → Except ε κ') (g : κ' → Except ε κ'') (step' : OpStep ρ κ''),
        (step.mapLabels f >>= OpStep.mapLabels g) = .ok step'
          ↔ step.mapLabels (fun l => f l >>= g) = .ok step' := by
  refine ⟨?_, fun ε κ' κ'' f g step' => mapLabels_bind_eq_ok_iff f g⟩
  intro σ ε κ' f s
  rcases f.answers_or_rejects step.labels s with
    ⟨answers, s', h⟩ | ⟨before, label, after, answers, s₁, e, s', hlabels, h, hreject⟩
  · obtain ⟨step', halike, rfl⟩ := step.exists_alike h.length_eq
    exact Or.inl ⟨step', s', h, halike.length_eq.symm, halike, run_mapLabels_of_answers halike h,
      run_mapLabels_of_answers halike (h.noting [])⟩
  · exact Or.inr ⟨before, after, label, answers, s₁, s', e, hlabels, h, hreject,
      run_mapLabels_of_rejects hlabels h hreject,
      run_mapLabels_of_rejects hlabels (h.noting []) (Mapping.run_noting hreject before)⟩

/-- Targets are numbered as they are met, and the third one is one too many. -/
example :
    let numbering : Mapping Nat String String Nat := fun label => do
      let n ← get
      if n < 2 then
        set (n + 1)
        return n
      else throw label
    let step : OpStep String String :=
      [.branch "A" "x", .openGuard, .branch "B" "x", .branch "C" "y", .branch "D" "z"]
    (step.mapLabels numbering.noting).run.run (0, []) = (.error "y", 2, ["x", "x", "y"]) := rfl

end Microstep
