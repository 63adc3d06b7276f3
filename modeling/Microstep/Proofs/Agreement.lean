import Microstep.Proofs.Lowering

/-!
# The check and the lowering agree

The check goes on where the lowering stops, and looks at ids before expressions where the lowering
looks at expressions first.  Kind by kind they see the same errors in the same order, and that is
what this file makes precise.

* `Machine.filter_isMalformed_check`, `Machine.filter_isDuplicate_check`,
  `Machine.filter_isUnresolved_check` — the errors of each kind that the check finds are those of
  the lowering, malformations up to what is shown of a compound increment;
* `Machine.check_eq_unresolved` — a check that finds neither of the first two kinds finds jumps
  only;
* `Machine.cases_of_head?_malformed` — what is malformed first is a name, or the amount of the first
  malformed entry (`Machine.FirstMalformed`);
* `Machine.lower_agrees_check` — what a lowering says about the check, and the check about a
  lowering.
-/

namespace Microstep

variable {ρ τ : Type}

/-! ## Kinds of errors -/

namespace LowerError

/-- Whether the error is a malformed expression. -/
def isMalformed : LowerError → Bool
  | .malformedExpression _ _ => true
  | _ => false

/-- Whether the error is a repeated id. -/
def isDuplicate : LowerError → Bool
  | .duplicateLabel _ => true
  | _ => false

/-- Whether the error is a jump to nowhere. -/
def isUnresolved : LowerError → Bool
  | .unresolvedLabel _ _ => true
  | _ => false

/-- Whether the error is about addresses. -/
def isAddress : LowerError → Bool
  | .addressOverflow _ => true
  | .addressCollision _ _ _ => true
  | _ => false

/-- An error without what was found in an expression. -/
def plain : LowerError → LowerError
  | .malformedExpression state cause => .malformedExpression state cause.plain
  | e => e

end LowerError

/-- A compound increment that is shown is told in the same words, and then shown. -/
lemma Malformation.reason_shown (counter : String) (e : Expr) :
    (Malformation.compoundIncrement counter (some e)).reason
      = (Malformation.compoundIncrement counter none).reason ++ ", found " ++ e.display := by
  show _ ++ (", found " ++ e.display) = _ ++ "" ++ ", found " ++ e.display
  rw [String.append_empty]
  exact String.append_assoc.symm

/-! ## What the check finds, kind by kind -/

section

variable {α : Type} (l : List α)

lemma filter_map_of_forall_true {p : LowerError → Bool} {f : α → LowerError}
    (h : ∀ a, p (f a) = true) : (l.map f).filter p = l.map f :=
  List.filter_eq_self.mpr fun e he => by
    obtain ⟨a, _, rfl⟩ := List.mem_map.mp he
    exact h a

lemma filter_map_of_forall_false {p : LowerError → Bool} {f : α → LowerError}
    (h : ∀ a, p (f a) = false) : (l.map f).filter p = [] :=
  List.filter_eq_nil_iff.mpr fun e he => by
    obtain ⟨a, _, rfl⟩ := List.mem_map.mp he
    rw [h a]
    exact Bool.false_ne_true

end

/-- The malformed expressions among the errors of a transition. -/
lemma Transition.filter_isMalformed_errors (declared : List StateId) (state : StateId)
    (t : Transition) :
    (t.errors declared state).filter LowerError.isMalformed
      = t.malformations.map (.malformedExpression state) := by
  rw [Transition.errors, List.filter_append, filter_map_of_forall_true _ fun _ => rfl]
  split_ifs <;> simp [LowerError.isMalformed]

/-- The jumps to nowhere among the errors of a transition. -/
lemma Transition.filter_isUnresolved_errors (declared : List StateId) (state : StateId)
    (t : Transition) :
    (t.errors declared state).filter LowerError.isUnresolved
      = if t.target ∈ declared then [] else [.unresolvedLabel t.target state] := by
  rw [Transition.errors, List.filter_append, filter_map_of_forall_false _ fun _ => rfl]
  split_ifs <;> rfl

lemma State.filter_isMalformed_errors (declared : List StateId) (s : State) :
    (s.errors declared).filter LowerError.isMalformed
      = (s.faults.map (.malformedExpression s.id)).map LowerError.plain := by
  have hplain : (s.faults.map (.malformedExpression s.id)).map LowerError.plain
      = (s.faults.map Malformation.plain).map (.malformedExpression s.id) := by
    rw [List.map_map, List.map_map]
    rfl
  rw [hplain, s.faults_map_plain, State.errors, List.filter_append, List.filter_flatMap,
    List.filter_flatMap, List.map_append, List.map_flatMap, List.map_flatMap]
  congr 1
  · exact congrArg (s.statements.flatMap ·)
      (funext fun st => filter_map_of_forall_true _ fun _ => rfl)
  · exact congrArg (s.transitions.flatMap ·)
      (funext fun t => t.filter_isMalformed_errors declared s.id)

lemma State.filter_isUnresolved_errors (declared : List StateId) (s : State) :
    (s.errors declared).filter LowerError.isUnresolved
      = (s.transitions.filter fun t => t.target ∉ declared).map fun t =>
          .unresolvedLabel t.target s.id := by
  have hstatements : (s.statements.flatMap fun st =>
      st.malformations.map (LowerError.malformedExpression s.id)).filter
        LowerError.isUnresolved = [] := by
    rw [List.filter_flatMap, List.flatMap_eq_nil_iff]
    exact fun st _ => filter_map_of_forall_false _ fun _ => rfl
  rw [State.errors, List.filter_append, hstatements, List.nil_append, List.filter_flatMap]
  induction s.transitions with
  | nil => rfl
  | cons t rest ih =>
      rw [List.flatMap_cons, ih, t.filter_isUnresolved_errors, List.filter_cons]
      by_cases ht : t.target ∈ declared <;> simp [ht]

/-- What the check finds in a state is a malformed expression or a jump to nowhere. -/
lemma State.cases_of_mem_errors {declared : List StateId} {s : State} {e : LowerError}
    (he : e ∈ s.errors declared) :
    (∃ cause, e = .malformedExpression s.id cause) ∨ ∃ label, e = .unresolvedLabel label s.id := by
  rw [State.errors, List.mem_append, List.mem_flatMap, List.mem_flatMap] at he
  rcases he with ⟨st, _, he⟩ | ⟨t, _, he⟩
  · obtain ⟨cause, _, rfl⟩ := List.mem_map.mp he
    exact Or.inl ⟨cause, rfl⟩
  · rw [Transition.errors, List.mem_append] at he
    rcases he with he | he
    · obtain ⟨cause, _, rfl⟩ := List.mem_map.mp he
      exact Or.inl ⟨cause, rfl⟩
    · split_ifs at he with hdeclared
      · cases he
      · exact Or.inr ⟨t.target, List.mem_singleton.mp he⟩

lemma State.filter_isDuplicate_errors (declared : List StateId) (s : State) :
    (s.errors declared).filter LowerError.isDuplicate = [] := by
  rw [List.filter_eq_nil_iff]
  intro e he
  rcases State.cases_of_mem_errors he with ⟨cause, rfl⟩ | ⟨label, rfl⟩
  · exact Bool.false_ne_true
  · exact Bool.false_ne_true

namespace Machine

/-- The repeated ids of a machine. -/
def duplicates (m : Machine τ) : List LowerError := (StateId.repeats m.ids).map .duplicateLabel

lemma check_eq (m : Machine τ) :
    m.check = m.duplicates ++ m.states.flatMap (State.errors m.ids) := rfl

/-- **The check finds the malformed expressions that the lowering finds**, in the same order. -/
theorem filter_isMalformed_check (m : Machine τ) :
    m.check.filter LowerError.isMalformed = m.malformed.map LowerError.plain := by
  rw [check_eq, List.filter_append, duplicates, filter_map_of_forall_false _ fun _ => rfl,
    List.nil_append, List.filter_flatMap, malformed, List.map_flatMap]
  exact congrArg (m.states.flatMap ·) (funext fun s => s.filter_isMalformed_errors m.ids)

/-- **The check finds the repeated ids that the lowering finds**, in the same order. -/
theorem filter_isDuplicate_check (m : Machine τ) :
    m.check.filter LowerError.isDuplicate = m.duplicates := by
  have hstates : (m.states.flatMap (State.errors m.ids)).filter LowerError.isDuplicate = [] := by
    rw [List.filter_flatMap, List.flatMap_eq_nil_iff]
    exact fun s _ => s.filter_isDuplicate_errors m.ids
  rw [check_eq, List.filter_append, hstates, List.append_nil, duplicates]
  exact filter_map_of_forall_true _ fun _ => rfl

/-- **The check finds the jumps to nowhere that the lowering finds**, in the same order. -/
theorem filter_isUnresolved_check (m : Machine τ) :
    m.check.filter LowerError.isUnresolved = m.unresolved := by
  rw [check_eq, List.filter_append, duplicates, filter_map_of_forall_false _ fun _ => rfl,
    List.nil_append, List.filter_flatMap, unresolved]
  exact congrArg (m.states.flatMap ·) (funext fun s => s.filter_isUnresolved_errors m.ids)

/-- The check does not look at addresses. -/
lemma isAddress_of_mem_check {m : Machine τ} {e : LowerError} (he : e ∈ m.check) :
    e.isAddress = false := by
  rw [check_eq, List.mem_append, duplicates, List.mem_map, List.mem_flatMap] at he
  rcases he with ⟨_, _, rfl⟩ | ⟨s, _, he⟩
  · rfl
  · rcases State.cases_of_mem_errors he with ⟨cause, rfl⟩ | ⟨label, rfl⟩
    · rfl
    · rfl

lemma malformed_eq_nil_iff {m : Machine τ} :
    m.malformed = [] ↔ ∀ e ∈ m.check, e.isMalformed = false := by
  rw [← List.map_eq_nil_iff, ← filter_isMalformed_check, List.filter_eq_nil_iff]
  simp only [Bool.not_eq_true]

lemma duplicates_eq_nil_iff {m : Machine τ} :
    m.duplicates = [] ↔ ∀ e ∈ m.check, e.isDuplicate = false := by
  rw [← filter_isDuplicate_check, List.filter_eq_nil_iff]
  simp only [Bool.not_eq_true]

/-- If neither expressions nor ids are wrong, the check finds the jumps to nowhere only. -/
lemma check_eq_unresolved {m : Machine τ} (hmal : m.malformed = []) (hdup : m.duplicates = []) :
    m.check = m.unresolved := by
  rw [← filter_isUnresolved_check, eq_comm, List.filter_eq_self]
  intro e he
  have h1 := malformed_eq_nil_iff.mp hmal e he
  have h2 := duplicates_eq_nil_iff.mp hdup e he
  have h3 := isAddress_of_mem_check he
  cases e with
  | unresolvedLabel _ _ => rfl
  | malformedExpression _ _ => cases h1
  | duplicateLabel _ => cases h2
  | addressOverflow _ => cases h3
  | addressCollision _ _ _ => cases h3

/-! ## The passes of the lowering, kind by kind -/

/-- What is wrong with the addresses of a machine: overflows, then collisions. -/
def addressFaults (m : Machine τ) : List LowerError :=
  Placement.fixedOverflows m.extents
    ++ (Placement.packedOverflows (Placement.floor m.extents) m.extents
      ++ Footprint.collisions m.footprints)

lemma faults_eq (m : Machine τ) :
    m.faults = m.malformed ++ (m.duplicates ++ (m.addressFaults ++ m.unresolved)) := by
  rw [faults, Placement.faults, map_id_extents, duplicates, addressFaults]
  simp only [List.append_assoc]

lemma isAddress_packedOverflows :
    ∀ {extents : List Extent} {cursor : Nat} {e : LowerError},
      e ∈ Placement.packedOverflows cursor extents → e.isAddress = true
  | [], _, _, he => by cases he
  | x :: rest, cursor, e, he => by
      rw [Placement.packedOverflows] at he
      cases hid : x.id with
      | numeric a =>
          rw [hid] at he
          exact isAddress_packedOverflows he
      | symbolic l =>
          simp only [hid, List.mem_append] at he
          rcases he with he | he
          · split_ifs at he
            · cases he
            · rw [List.mem_singleton] at he
              rw [he]
              rfl
          · exact isAddress_packedOverflows he

lemma isAddress_of_mem_addressFaults {m : Machine τ} {e : LowerError}
    (he : e ∈ m.addressFaults) : e.isAddress = true := by
  rw [addressFaults, List.mem_append, List.mem_append] at he
  rcases he with he | he | he
  · obtain ⟨x, _, rfl⟩ := List.mem_map.mp he
    rfl
  · exact isAddress_packedOverflows he
  · obtain ⟨x, _, rfl⟩ := List.mem_map.mp he
    rfl

/-- Whether lowering fails because of addresses. -/
def AddressFailure (scheme : RegisterScheme ρ) (m : Machine τ) : Prop :=
  (∃ state, m.lower scheme = .error (.addressOverflow state))
    ∨ ∃ first second address, m.lower scheme = .error (.addressCollision first second address)

/-- The first fault of the addresses is an address failure, if nothing comes before it. -/
lemma addressFailure_of_failsFirst {scheme : RegisterScheme ρ} {m : Machine τ}
    {later : List LowerError} (h : FailsFirst (m.lower scheme) (m.addressFaults ++ later))
    (hne : m.addressFaults ≠ []) : m.AddressFailure scheme := by
  obtain ⟨e, rest, hfaults⟩ := List.exists_cons_of_ne_nil hne
  have hlower : m.lower scheme = .error e := h.eq_error (by rw [hfaults]; rfl)
  have haddress : e.isAddress = true :=
    isAddress_of_mem_addressFaults (by rw [hfaults]; exact List.mem_cons_self)
  cases e with
  | addressOverflow state => exact Or.inl ⟨state, hlower⟩
  | addressCollision first second address => exact Or.inr ⟨first, second, address, hlower⟩
  | unresolvedLabel _ _ => cases haddress
  | malformedExpression _ _ => cases haddress
  | duplicateLabel _ => cases haddress

/-- Without malformations and repeated ids, what is left to fail are addresses and jumps. -/
lemma lower_failsFirst_of_sound (scheme : RegisterScheme ρ) {m : Machine τ}
    (hfit : ∀ s ∈ m.states, s.width < UInt32.size) (hmal : m.malformed = [])
    (hdup : m.duplicates = []) :
    FailsFirst (m.lower scheme) (m.addressFaults ++ m.unresolved) := by
  have h := m.lower_failsFirst scheme hfit
  rwa [faults_eq, hmal, hdup, List.nil_append, List.nil_append] at h

/-- An error of another kind than all of `faults` can come first only if there are none. -/
lemma head?_append_of_kind {kind : LowerError → Bool} {faults later : List LowerError}
    {e : LowerError} (hkind : ∀ x ∈ faults, kind x = true) (he : kind e = false)
    (h : (faults ++ later).head? = some e) : faults = [] ∧ later.head? = some e := by
  cases faults with
  | nil => exact ⟨rfl, h⟩
  | cons x rest =>
      rw [List.cons_append, List.head?_cons] at h
      cases h
      rw [hkind e List.mem_cons_self] at he
      cases he

/-- A jump to nowhere is told only if nothing else is wrong. -/
lemma sound_of_lower_unresolved {scheme : RegisterScheme ρ} {m : Machine τ}
    (hfit : ∀ s ∈ m.states, s.width < UInt32.size) {label state : StateId}
    (h : m.lower scheme = .error (.unresolvedLabel label state)) :
    m.malformed = [] ∧ m.duplicates = []
      ∧ m.unresolved.head? = some (.unresolvedLabel label state) := by
  have hhead := (m.lower_failsFirst scheme hfit).head?_eq h
  rw [faults_eq] at hhead
  have hkind : ∀ x ∈ m.malformed, x.isMalformed = true := by
    intro x hx
    obtain ⟨s, _, hs⟩ := List.mem_flatMap.mp hx
    obtain ⟨_, _, rfl⟩ := List.mem_map.mp hs
    rfl
  obtain ⟨hmal, hhead⟩ := head?_append_of_kind hkind rfl hhead
  have hkind' : ∀ x ∈ m.duplicates, x.isDuplicate = true := by
    intro x hx
    obtain ⟨_, _, rfl⟩ := List.mem_map.mp hx
    rfl
  obtain ⟨hdup, hhead⟩ := head?_append_of_kind hkind' rfl hhead
  obtain ⟨_, hhead⟩ :=
    head?_append_of_kind (fun x hx => isAddress_of_mem_addressFaults hx) rfl hhead
  exact ⟨hmal, hdup, hhead⟩

/-- The first malformed expression that the check finds is the one that lowering fails with. -/
lemma lower_eq_first_malformed (scheme : RegisterScheme ρ) {m : Machine τ}
    (hfit : ∀ s ∈ m.states, s.width < UInt32.size) {state : StateId} {cause : Malformation}
    (h : m.check.find? LowerError.isMalformed = some (.malformedExpression state cause)) :
    ∃ told, m.lower scheme = .error (.malformedExpression state told)
      ∧ m.malformed.head? = some (.malformedExpression state told) ∧ told.plain = cause := by
  rw [← List.head?_filter, filter_isMalformed_check, List.head?_map, Option.map_eq_some_iff] at h
  obtain ⟨e, he, hplain⟩ := h
  have hlower : m.lower scheme = .error e := by
    refine (m.lower_failsFirst scheme hfit).eq_error ?_
    rw [faults_eq, List.head?_append, he, Option.some_or]
  cases e with
  | malformedExpression state' told =>
      cases hplain
      exact ⟨told, hlower, he, rfl⟩
  | unresolvedLabel _ _ => cases hplain
  | duplicateLabel _ => cases hplain
  | addressOverflow _ => cases hplain
  | addressCollision _ _ _ => cases hplain

end Machine

/-! ## The first malformed entry -/

/-- What comes first in a list of lists comes first in the first of them that is not empty. -/
lemma exists_first_of_head?_flatMap {α β : Type} {l : List α} {f : α → List β} {b : β}
    (h : (l.flatMap f).head? = some b) :
    ∃ front a back, l = front ++ a :: back ∧ (∀ x ∈ front, f x = []) ∧ (f a).head? = some b := by
  rw [List.head?_flatMap, List.findSome?_eq_some_iff] at h
  obtain ⟨front, a, back, hl, ha, hfront⟩ := h
  exact ⟨front, a, back, hl, fun x hx => List.head?_eq_none_iff.mp (hfront x hx), ha⟩

lemma Operand.eq_emptyName_of_mem {o : Operand String} {cause : Malformation}
    (h : cause ∈ o.malformations) : cause = .emptyName := by
  unfold Operand.malformations at h
  split_ifs at h
  · exact List.mem_singleton.mp h
  · cases h

lemma Transition.eq_emptyName_of_mem {t : Transition} {cause : Malformation}
    (h : cause ∈ t.malformations) : cause = .emptyName := by
  unfold Transition.malformations at h
  cases hcond : t.condition with
  | none =>
      rw [hcond] at h
      cases h
  | some c =>
      rw [hcond] at h
      obtain ⟨o, _, ho⟩ := List.mem_flatMap.mp h
      exact o.eq_emptyName_of_mem ho

/-- What is malformed first in a statement is a name, or its amount if the counter has a name. -/
lemma Statement.cases_of_head?_faults {s : Statement} {cause : Malformation}
    (h : s.faults.head? = some cause) :
    cause = .emptyName
      ∨ s.out ≠ "" ∧ s.amount.isLeaf = false
        ∧ cause = .compoundIncrement s.out (some s.amount) := by
  unfold Statement.faults at h
  by_cases hout : s.out = ""
  · rw [if_pos hout] at h
    exact Or.inl (Option.some.inj h).symm
  · rw [if_neg hout, List.nil_append] at h
    cases hamount : s.amount with
    | leaf o =>
        rw [hamount] at h
        exact Or.inl (o.eq_emptyName_of_mem (List.mem_of_mem_head? h))
    | node l op r =>
        rw [hamount] at h
        exact Or.inr ⟨hout, rfl, (Option.some.inj h).symm⟩

/-- What is malformed first in a state is a name, or the amount of the first statement in which
anything is. -/
lemma State.cases_of_head?_faults {s : State} {cause : Malformation}
    (h : s.faults.head? = some cause) :
    cause = .emptyName
      ∨ ∃ front st back, s.statements = front ++ st :: back ∧ (∀ st' ∈ front, st'.faults = [])
          ∧ st.out ≠ "" ∧ st.amount.isLeaf = false
          ∧ cause = .compoundIncrement st.out (some st.amount) := by
  rw [State.faults, List.head?_append, Option.or_eq_some_iff] at h
  rcases h with hstatement | ⟨_, htransition⟩
  · obtain ⟨front, st, back, hsplit, hfront, hst⟩ := exists_first_of_head?_flatMap hstatement
    refine st.cases_of_head?_faults hst |>.imp_right fun hcompound => ?_
    exact ⟨front, st, back, hsplit, hfront, hcompound⟩
  · obtain ⟨t, _, ht⟩ := List.mem_flatMap.mp (List.mem_of_mem_head? htransition)
    exact Or.inl (t.eq_emptyName_of_mem ht)

/-- A state without faults gets no malformed expression from the check. -/
lemma State.isMalformed_of_mem_errors {s : State} (h : s.faults = []) {declared : List StateId}
    {e : LowerError} (he : e ∈ s.errors declared) : e.isMalformed = false := by
  have hfilter := s.filter_isMalformed_errors declared
  rw [h, List.map_nil, List.map_nil, List.filter_eq_nil_iff] at hfilter
  exact Bool.eq_false_of_not_eq_true (hfilter e he)

namespace Machine

/-- **The first malformed entry of a machine is the statement `st` of the state `s`**: the check
finds nothing malformed in the states before, nor in the statements before. -/
structure FirstMalformed (m : Machine τ) (s : State) (st : Statement) : Prop where
  states : ∃ earlier later, m.states = earlier ++ s :: later
    ∧ ∀ s' ∈ earlier, ∀ e ∈ s'.errors m.ids, e.isMalformed = false
  statements : ∃ front back, s.statements = front ++ st :: back
    ∧ ∀ st' ∈ front, st'.malformations = []

/-- **What is malformed first in a machine** is a name, or the amount of the first malformed
entry. -/
lemma cases_of_head?_malformed {m : Machine τ} {state : StateId} {cause : Malformation}
    (h : m.malformed.head? = some (.malformedExpression state cause)) :
    cause = .emptyName
      ∨ ∃ s st, m.FirstMalformed s st ∧ s.id = state ∧ st.out ≠ "" ∧ st.amount.isLeaf = false
          ∧ cause = .compoundIncrement st.out (some st.amount) := by
  obtain ⟨earlier, s, later, hstates, hearlier, hs⟩ := exists_first_of_head?_flatMap h
  rw [List.head?_map, Option.map_eq_some_iff] at hs
  obtain ⟨cause', hcause, heq⟩ := hs
  cases heq
  refine s.cases_of_head?_faults hcause |>.imp_right ?_
  rintro ⟨front, st, back, hstatements, hfront, hcompound⟩
  refine ⟨s, st, ⟨⟨earlier, later, hstates, ?_⟩, ⟨front, back, hstatements, ?_⟩⟩, rfl, hcompound⟩
  · intro s' hs' e he
    exact s'.isMalformed_of_mem_errors (List.map_eq_nil_iff.mp (hearlier s' hs')) he
  · intro st' hst'
    rw [← st'.faults_map_plain, hfront st' hst', List.map_nil]

/-! ## Agreement -/

/-- **The check and the lowering agree**, for machines whose states are not too wide.  A machine
that is lowered passes the check, and one that passes is lowered unless its addresses fail.  Where
the check finds malformed expressions, lowering fails with the first of them; if that is a compound
increment, it is the one of the first malformed entry, and its amount is shown.  Where the check
finds repeated ids only beside jumps, lowering fails with the first of those.  Lowering tells a jump
to nowhere only if the check finds jumps to nowhere alone, and then it is the first of them; and if
the check finds these alone, lowering tells the first unless its addresses fail. -/
theorem lower_agrees_check (scheme : RegisterScheme ρ) (m : Machine τ)
    (hfit : ∀ s ∈ m.states, s.width < UInt32.size) :
    ((∃ p, m.lower scheme = .ok p) → m.check = [])
    ∧ (m.check = [] → (∃ p, m.lower scheme = .ok p) ∨ m.AddressFailure scheme)
    ∧ (∀ state cause,
        m.check.find? LowerError.isMalformed = some (.malformedExpression state cause) →
          ∃ told, m.lower scheme = .error (.malformedExpression state told)
            ∧ (cause = .emptyName ∧ told = .emptyName
              ∨ ∃ s st, m.FirstMalformed s st ∧ s.id = state
                  ∧ st.out ≠ "" ∧ st.amount.isLeaf = false
                  ∧ cause = .compoundIncrement st.out none
                  ∧ told = .compoundIncrement st.out (some st.amount)
                  ∧ told.reason = cause.reason ++ ", found " ++ st.amount.display))
    ∧ ((∀ e ∈ m.check, e.isMalformed = false) →
        ∀ label, m.check.find? LowerError.isDuplicate = some (.duplicateLabel label) →
          m.lower scheme = .error (.duplicateLabel label))
    ∧ (∀ label state, m.lower scheme = .error (.unresolvedLabel label state) →
        (∀ e ∈ m.check, e.isMalformed = false ∧ e.isDuplicate = false)
          ∧ m.check.head? = some (.unresolvedLabel label state))
    ∧ (m.check ≠ [] → (∀ e ∈ m.check, e.isUnresolved = true) →
        (∃ e, m.check.head? = some e ∧ m.lower scheme = .error e) ∨ m.AddressFailure scheme) := by
  have hfaults := m.lower_failsFirst scheme hfit
  rw [faults_eq] at hfaults
  refine ⟨?_, ?_, ?_, ?_, ?_, ?_⟩
  · rintro ⟨p, hp⟩
    have hnil := hfaults.eq_nil hp
    simp only [List.append_eq_nil_iff] at hnil
    obtain ⟨hmal, hdup, _, hunres⟩ := hnil
    rw [check_eq_unresolved hmal hdup, hunres]
  · intro hcheck
    have hmal : m.malformed = [] := malformed_eq_nil_iff.mpr (by simp [hcheck])
    have hdup : m.duplicates = [] := duplicates_eq_nil_iff.mpr (by simp [hcheck])
    have hunres : m.unresolved = [] := by rw [← check_eq_unresolved hmal hdup, hcheck]
    have hsound := lower_failsFirst_of_sound scheme hfit hmal hdup
    by_cases haddr : m.addressFaults = []
    · rw [haddr, hunres] at hsound
      exact Or.inl hsound
    · exact Or.inr (addressFailure_of_failsFirst hsound haddr)
  · intro state cause hfirst
    obtain ⟨told, hlower, hhead, rfl⟩ := lower_eq_first_malformed scheme hfit hfirst
    refine ⟨told, hlower, ?_⟩
    rcases cases_of_head?_malformed hhead with rfl | ⟨s, st, hentry, hid, hout, hleaf, rfl⟩
    · exact Or.inl ⟨rfl, rfl⟩
    · exact Or.inr ⟨s, st, hentry, hid, hout, hleaf, rfl, rfl, Malformation.reason_shown _ _⟩
  · intro hsound label hfirst
    have hmal : m.malformed = [] := malformed_eq_nil_iff.mpr hsound
    rw [← List.head?_filter, filter_isDuplicate_check] at hfirst
    refine hfaults.eq_error ?_
    rw [hmal, List.nil_append, List.head?_append, hfirst, Option.some_or]
  · intro label state hlower
    obtain ⟨hmal, hdup, hhead⟩ := sound_of_lower_unresolved hfit hlower
    refine ⟨fun e he => ?_, ?_⟩
    · exact ⟨malformed_eq_nil_iff.mp hmal e he, duplicates_eq_nil_iff.mp hdup e he⟩
    · rw [check_eq_unresolved hmal hdup]
      exact hhead
  · intro hne hjumps
    have hmal : m.malformed = [] := by
      refine malformed_eq_nil_iff.mpr fun e he => ?_
      have hjump := hjumps e he
      cases e <;> first | rfl | cases hjump
    have hdup : m.duplicates = [] := by
      refine duplicates_eq_nil_iff.mpr fun e he => ?_
      have hjump := hjumps e he
      cases e <;> first | rfl | cases hjump
    have hsound := lower_failsFirst_of_sound scheme hfit hmal hdup
    by_cases haddr : m.addressFaults = []
    · rw [haddr, List.nil_append, ← check_eq_unresolved hmal hdup] at hsound
      obtain ⟨e, rest, hcons⟩ := List.exists_cons_of_ne_nil hne
      exact Or.inl ⟨e, by rw [hcons]; rfl, hsound.eq_error (by rw [hcons]; rfl)⟩
    · exact Or.inr (addressFailure_of_failsFirst hsound haddr)

/-- A machine with an id declared twice, in both states a compound increment of the same counter,
and a jump to nowhere under a condition without names. -/
def tangled : Machine Unit :=
  { timers := [()]
    states :=
      [ { id := .symbolic "a"
          statements :=
            [.increment "X" (.node (.leaf (.name "Y")) .add (.leaf (.literal 1)))]
          transitions :=
            [{ condition := some (.node (.leaf (.name "")) .lt (.leaf (.name "")))
               target := .symbolic "nowhere" }] },
        { id := .symbolic "a"
          statements :=
            [.increment "X" (.node (.leaf (.name "Z")) .mul (.leaf (.literal 2)))]
          transitions := [] } ] }

theorem lower_agrees_check_tangled :
    (∀ s ∈ tangled.states, s.width < UInt32.size)
      ∧ tangled.check.find? LowerError.isMalformed
          = some (.malformedExpression (.symbolic "a") (.compoundIncrement "X" none))
      ∧ ∃ told, tangled.lower RegisterScheme.free
          = .error (.malformedExpression (.symbolic "a") told)
        ∧ told.reason = "increment of `X` must be a variable or literal, found (Y + 1)" := by
  have hfit : ∀ s ∈ tangled.states, s.width < UInt32.size := by decide
  have hfirst : tangled.check.find? LowerError.isMalformed
      = some (.malformedExpression (.symbolic "a") (.compoundIncrement "X" none)) := by decide
  refine ⟨hfit, hfirst, ?_⟩
  obtain ⟨told, hlower, h⟩ :=
    (lower_agrees_check RegisterScheme.free tangled hfit).2.2.1 _ _ hfirst
  refine ⟨told, hlower, ?_⟩
  rcases h with ⟨h, _⟩ | ⟨s, st, hentry, _, _, _, _, _, hreason⟩
  · cases h
  · obtain ⟨earlier, later, hstates, hearlier⟩ := hentry.states
    obtain ⟨front, back, hstatements, _⟩ := hentry.statements
    cases earlier with
    | nil =>
        obtain ⟨rfl, _⟩ := List.cons.inj hstates
        cases front with
        | nil =>
            obtain ⟨rfl, _⟩ := List.cons.inj hstatements
            exact hreason
        | cons st' front => cases front <;> cases (List.cons.inj hstatements).2
    | cons s' earlier =>
        -- the first state is malformed already, so no state before the entry is that one
        obtain ⟨rfl, _⟩ := List.cons.inj hstates
        have hmalformed := hearlier _ List.mem_cons_self
        exact absurd hmalformed (by decide)

end Machine

end Microstep
