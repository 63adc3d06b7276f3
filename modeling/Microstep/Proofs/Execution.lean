import Microstep.Proofs.Addresses

/-!
# Running programs

A machine that runs lowered programs.  All op-steps lie in one memory, each at its address; a
configuration is an address and what the registers hold.  Opening the guard sets it to one, a
compute writes the value of an operation into a register, and a branch goes to its target unless its
register is zero.  An op-step that does not branch away goes on to the next address.  How operators
are read is left open.

* `OpStep.exec`, `Program.step`, `Program.run` — one op-step, one step and many steps;
* `OpStep.execAll` — op-steps one after the other, up to the first that branches away;
* `Program.run_execAll` — op-steps that lie at consecutive addresses are run one after the other;
* `Lowered.holds` — the op-steps of a state lie at consecutive addresses from that of the state.
-/

namespace Microstep

variable {ρ τ κ κ' : Type}

/-! ## One op-step -/

/-- The value of an operand. -/
def Operand.value (store : ρ → Int) : Operand ρ → Int
  | .literal v => v.toInt
  | .name r => store r

lemma Operand.value_map {σ : Type} (f : σ → ρ) (store : ρ → Int) (o : Operand σ) :
    (o.map f).value store = o.value fun r => store (f r) := by
  cases o <;> rfl

section

variable [DecidableEq ρ] (guard : ρ) (ops : Operator → Int → Int → Int)

/-- What a compute leaves in the registers. -/
def Compute.exec (store : ρ → Int) (c : Compute ρ) : ρ → Int :=
  Function.update store c.out (ops c.operator (c.left.value store) (c.right.value store))

/-- What a micro-op leaves in the registers, and where it branches to. -/
def MicroOp.exec (store : ρ → Int) : MicroOp ρ κ → (ρ → Int) × Option κ
  | .openGuard => (Function.update store guard 1, none)
  | .compute c => (c.exec ops store, none)
  | .branch r target => (store, if store r = 0 then none else some target)

/-- What an op-step leaves in the registers, and where it branches to.  A branch that is taken
leaves the op-step. -/
def OpStep.exec (store : ρ → Int) : OpStep ρ κ → (ρ → Int) × Option κ
  | [] => (store, none)
  | op :: rest => match op.exec guard ops store with
    | (store', some target) => (store', some target)
    | (store', none) => OpStep.exec store' rest

lemma MicroOp.exec_relabel (f : κ → κ') (store : ρ → Int) (op : MicroOp ρ κ) :
    (op.relabel f).exec guard ops store
      = ((op.exec guard ops store).1, (op.exec guard ops store).2.map f) := by
  cases op with
  | openGuard => rfl
  | compute c => rfl
  | branch r target =>
      simp only [MicroOp.relabel, MicroOp.exec]
      split_ifs <;> rfl

/-- Other targets change where an op-step branches to and nothing else. -/
lemma OpStep.exec_relabel (f : κ → κ') (step : OpStep ρ κ) (store : ρ → Int) :
    OpStep.exec guard ops store (step.relabel f)
      = ((step.exec guard ops store).1, (step.exec guard ops store).2.map f) := by
  induction step generalizing store with
  | nil => rfl
  | cons op rest ih =>
      rw [OpStep.relabel, List.map_cons, OpStep.exec, OpStep.exec, MicroOp.exec_relabel]
      cases hop : op.exec guard ops store with
      | mk store' exit =>
          cases exit with
          | some target => rfl
          | none => exact ih store'

/-! ## Op-steps one after the other -/

/-- What comes of running op-steps. -/
structure Outcome (ρ κ : Type) where
  store : ρ → Int
  /-- Where the last of them has branched to. -/
  exit : Option κ
  /-- How many were run. -/
  count : Nat

/-- Runs op-steps one after the other, up to the first that branches away. -/
def OpStep.execAll (store : ρ → Int) : List (OpStep ρ κ) → Outcome ρ κ
  | [] => { store, exit := none, count := 0 }
  | step :: rest => match step.exec guard ops store with
    | (store', some target) => { store := store', exit := some target, count := 1 }
    | (store', none) =>
      let later := OpStep.execAll store' rest
      { later with count := later.count + 1 }

namespace OpStep

variable {guard ops}

lemma execAll_cons_of_some {store store' : ρ → Int} {step : OpStep ρ κ} {target : κ}
    (h : step.exec guard ops store = (store', some target)) (rest : List (OpStep ρ κ)) :
    execAll guard ops store (step :: rest)
      = { store := store', exit := some target, count := 1 } := by
  rw [execAll, h]

lemma execAll_cons_of_none {store store' : ρ → Int} {step : OpStep ρ κ}
    (h : step.exec guard ops store = (store', none)) (rest : List (OpStep ρ κ)) :
    execAll guard ops store (step :: rest)
      = { execAll guard ops store' rest with
          count := (execAll guard ops store' rest).count + 1 } := by
  rw [execAll, h]

/-- If the first op-steps do not branch away, the others are run from where they leave off. -/
lemma execAll_append_of_none :
    ∀ {first : List (OpStep ρ κ)} {store : ρ → Int}, (execAll guard ops store first).exit = none →
      ∀ later : List (OpStep ρ κ),
        execAll guard ops store (first ++ later)
          = { execAll guard ops (execAll guard ops store first).store later with
              count := (execAll guard ops store first).count
                + (execAll guard ops (execAll guard ops store first).store later).count }
  | [], store, _, later => by
      simp only [execAll, List.nil_append, Nat.zero_add]
  | step :: rest, store, h, later => by
      rw [List.cons_append]
      cases hstep : step.exec guard ops store with
      | mk store' exit =>
          cases exit with
          | some target =>
              rw [execAll_cons_of_some hstep] at h
              cases h
          | none =>
              rw [execAll_cons_of_none hstep] at h ⊢
              rw [execAll_cons_of_none hstep, execAll_append_of_none h later]
              simp only [Outcome.mk.injEq, true_and]
              omega

/-- If the first op-steps branch away, the others are not run. -/
lemma execAll_append_of_some :
    ∀ {first : List (OpStep ρ κ)} {store : ρ → Int} {target : κ},
      (execAll guard ops store first).exit = some target → ∀ later : List (OpStep ρ κ),
        execAll guard ops store (first ++ later) = execAll guard ops store first
  | [], _, _, h, _ => by cases h
  | step :: rest, store, target, h, later => by
      rw [List.cons_append]
      cases hstep : step.exec guard ops store with
      | mk store' exit =>
          cases exit with
          | some target' => rw [execAll_cons_of_some hstep, execAll_cons_of_some hstep]
          | none =>
              rw [execAll_cons_of_none hstep] at h
              rw [execAll_cons_of_none hstep, execAll_cons_of_none hstep,
                execAll_append_of_some h later]

lemma execAll_map_relabel (f : κ → κ') :
    ∀ (steps : List (OpStep ρ κ)) (store : ρ → Int),
      execAll guard ops store (steps.map (relabel f))
        = { store := (execAll guard ops store steps).store
            exit := (execAll guard ops store steps).exit.map f
            count := (execAll guard ops store steps).count }
  | [], _ => rfl
  | step :: rest, store => by
      have hrelabel := exec_relabel guard ops f step store
      rw [List.map_cons]
      cases hstep : step.exec guard ops store with
      | mk store' exit =>
          rw [hstep] at hrelabel
          cases exit with
          | some target => rw [execAll_cons_of_some hrelabel, execAll_cons_of_some hstep]; rfl
          | none =>
              rw [execAll_cons_of_none hrelabel, execAll_cons_of_none hstep,
                execAll_map_relabel f rest store']

end OpStep

end

/-! ## Programs -/

/-- An address, counted without an upper limit, and what the registers hold. -/
structure Config (ρ : Type) where
  pc : Nat
  store : ρ → Int

namespace Program

/-- The op-steps of a program with the addresses they lie at. -/
def cells (p : Program ρ τ) : List (Nat × OpStep ρ Address) :=
  p.states.flatMap fun q => q.blocks.flatMap fun b =>
    b.steps.zipIdx.map fun x => (b.start.toNat + x.2, x.1)

/-- The op-step at an address. -/
def fetch (p : Program ρ τ) (pc : Nat) : Option (OpStep ρ Address) := p.cells.lookup pc

section

variable [DecidableEq ρ] (guard : ρ) (ops : Operator → Int → Int → Int)

/-- **One step**: the op-step at the address is run, and goes where it branches to or on to the next
address.  There is none if no op-step lies there. -/
def step (p : Program ρ τ) (c : Config ρ) : Option (Config ρ) :=
  (p.fetch c.pc).map fun step => match step.exec guard ops c.store with
    | (store, some target) => { pc := target.toNat, store }
    | (store, none) => { pc := c.pc + 1, store }

/-- A number of steps. -/
def run (p : Program ρ τ) : Nat → Config ρ → Option (Config ρ)
  | 0, c => some c
  | n + 1, c => (p.step guard ops c).bind (run p n)

end

/-- Whether a program holds op-steps at consecutive addresses from `a` on. -/
def Holds (p : Program ρ τ) (a : Nat) (steps : List (OpStep ρ Address)) : Prop :=
  ∀ {k : Nat} {step : OpStep ρ Address}, steps[k]? = some step → p.fetch (a + k) = some step

lemma Holds.head {p : Program ρ τ} {a : Nat} {step : OpStep ρ Address}
    {rest : List (OpStep ρ Address)} (h : p.Holds a (step :: rest)) : p.fetch a = some step :=
  h (k := 0) rfl

lemma Holds.tail {p : Program ρ τ} {a : Nat} {step : OpStep ρ Address}
    {rest : List (OpStep ρ Address)} (h : p.Holds a (step :: rest)) : p.Holds (a + 1) rest := by
  intro k step' hk
  have hfetch := @h (k + 1) step' hk
  rwa [Nat.add_comm k 1, ← Nat.add_assoc] at hfetch

variable [DecidableEq ρ] {guard : ρ} {ops : Operator → Int → Int → Int}

/-- **Op-steps at consecutive addresses are run one after the other.**  Until one branches away the
address moves on by one each time; at the end it is where the last has branched to, or after them
all. -/
theorem run_execAll {p : Program ρ τ} :
    ∀ {steps : List (OpStep ρ Address)} {a : Nat}, p.Holds a steps → ∀ store : ρ → Int,
      p.run guard ops (OpStep.execAll guard ops store steps).count { pc := a, store }
          = some
            { pc := ((OpStep.execAll guard ops store steps).exit.map UInt32.toNat).getD
                (a + steps.length)
              store := (OpStep.execAll guard ops store steps).store }
        ∧ ∀ k < (OpStep.execAll guard ops store steps).count,
            ∃ store', p.run guard ops k { pc := a, store } = some { pc := a + k, store := store' }
  | [], a, _, store => ⟨rfl, fun k hk => absurd hk (Nat.not_lt_zero k)⟩
  | step :: rest, a, h, store => by
      cases hstep : step.exec guard ops store with
      | mk store' exit =>
          cases exit with
          | some target =>
              have hone : p.step guard ops { pc := a, store } =
                  some { pc := target.toNat, store := store' } := by
                simp only [Program.step, h.head, Option.map_some, hstep]
              rw [OpStep.execAll_cons_of_some hstep]
              refine ⟨?_, fun k hk => ?_⟩
              · simp only [run, hone, Option.bind_some, Option.map_some, Option.getD_some]
              · obtain rfl : k = 0 := Nat.lt_one_iff.mp hk
                exact ⟨store, rfl⟩
          | none =>
              have hone : p.step guard ops { pc := a, store } =
                  some { pc := a + 1, store := store' } := by
                simp only [Program.step, h.head, Option.map_some, hstep]
              obtain ⟨hend, hway⟩ := run_execAll (p := p) h.tail store'
              rw [OpStep.execAll_cons_of_none hstep]
              refine ⟨?_, fun k hk => ?_⟩
              · simp only [run, hone, Option.bind_some, hend, List.length_cons]
                rw [Nat.add_assoc a 1, Nat.add_comm 1]
              · cases k with
                | zero => exact ⟨store, rfl⟩
                | succ k =>
                    obtain ⟨store'', hk'⟩ := hway k (Nat.lt_of_succ_lt_succ hk)
                    refine ⟨store'', ?_⟩
                    simp only [run, hone, Option.bind_some, hk']
                    rw [Nat.add_assoc a 1, Nat.add_comm 1]

end Program

/-! ## Lowered machines -/

/-- An element of a list of lists, by its place in one of them. -/
lemma getElem?_flatMap_split {α β : Type} (f : α → List β) :
    ∀ {l : List α} {k : Nat} {b : β}, (l.flatMap f)[k]? = some b →
      ∃ j a k', l[j]? = some a ∧ (f a)[k']? = some b
        ∧ k = ((l.map fun x => (f x).length).take j).sum + k'
  | [], _, _, h => by simp at h
  | x :: rest, k, b, h => by
      rw [List.flatMap_cons] at h
      rcases Nat.lt_or_ge k (f x).length with hlt | hge
      · rw [List.getElem?_append_left hlt] at h
        exact ⟨0, x, k, rfl, h, (Nat.zero_add k).symm⟩
      · rw [List.getElem?_append_right hge] at h
        obtain ⟨j, a, k', hj, hk', hsum⟩ := getElem?_flatMap_split f h
        refine ⟨j + 1, a, k', hj, hk', ?_⟩
        rw [List.map_cons, List.take_succ_cons, List.sum_cons]
        omega

lemma Program.mem_cells_iff {p : Program ρ τ} {a : Nat} {step : OpStep ρ Address} :
    (a, step) ∈ p.cells ↔ ∃ i j k, p.StepAt i j k step a := by
  simp only [cells, List.mem_flatMap, List.mem_map, Prod.exists, List.mem_zipIdx_iff_getElem?,
    Prod.mk.injEq]
  constructor
  · rintro ⟨q, hq, b, hb, _, k, hk, rfl, rfl⟩
    obtain ⟨i, hi⟩ := List.mem_iff_getElem?.mp hq
    obtain ⟨j, hj⟩ := List.mem_iff_getElem?.mp hb
    exact ⟨i, j, k, q, b, hi, hj, hk, rfl⟩
  · rintro ⟨i, j, k, q, b, hi, hj, hk, rfl⟩
    exact ⟨q, List.mem_of_getElem? hi, b, List.mem_of_getElem? hj, step, k, hk, rfl, rfl⟩

namespace Lowered

variable {scheme : RegisterScheme ρ} {m : Machine τ} {p : Program ρ τ}

/-- What is fetched at the address of an op-step is the op-step. -/
lemma fetch_eq (h : Lowered scheme m p) {i j k a : Nat} {step : OpStep ρ Address}
    (hstep : p.StepAt i j k step a) : p.fetch a = some step := by
  have hmem : (a, step) ∈ p.cells := Program.mem_cells_iff.mpr ⟨i, j, k, hstep⟩
  cases hfetch : p.cells.lookup a with
  | none =>
      have hne := List.lookup_eq_none_iff.mp hfetch _ hmem
      simp at hne
  | some step' =>
      obtain ⟨l₁, l₂, hcells, _⟩ := List.lookup_eq_some_iff.mp hfetch
      have hmem' : (a, step') ∈ p.cells := by rw [hcells]; simp
      obtain ⟨i', j', k', hstep'⟩ := Program.mem_cells_iff.mp hmem'
      obtain ⟨rfl, rfl, rfl⟩ := h.stepAt_injective hstep hstep'
      obtain ⟨q, b, hq, hb, hk, _⟩ := hstep
      obtain ⟨q', b', hq', hb', hk', _⟩ := hstep'
      rw [hq] at hq'
      cases hq'
      rw [hb] at hb'
      cases hb'
      rw [Program.fetch, hfetch, ← hk, hk']

/-- **The op-steps of a state lie at consecutive addresses**, from that of the state on. -/
theorem holds (h : Lowered scheme m p) {i : Nat} {q : ProgramState ρ}
    (hq : p.states[i]? = some q) : p.Holds q.address.toNat (q.blocks.flatMap Block.steps) := by
  intro k step hk
  obtain ⟨j, b, k', hb, hk', hsum⟩ := getElem?_flatMap_split Block.steps hk
  have hstart := h.start_eq hq hb
  refine h.fetch_eq (i := i) (j := j) (k := k') ⟨q, b, hq, hb, hk', ?_⟩
  rw [hstart, hsum, ← Nat.add_assoc]
  rfl

end Lowered

lemma Compiled.flatMap_steps_blocksAt (f : StateId → Address) :
    ∀ (bodies : List (Body ρ)) (start : Address),
      (Compiled.blocksAt f start bodies).flatMap Block.steps
        = bodies.flatten.map (OpStep.relabel f)
  | [], _ => rfl
  | body :: rest, start => by
      rw [Compiled.blocksAt, List.flatMap_cons, Compiled.flatMap_steps_blocksAt f rest,
        List.flatten_cons, List.map_append]

end Microstep
