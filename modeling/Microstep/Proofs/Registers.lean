import Microstep.Proofs.Suffixes

/-!
# Registers are kept apart

The lowering never compares registers, so whether it works depends on the scheme giving different
registers different names.  `RegisterScheme.KeepsApart` says this for the registers that a state
with given variables can use: its variables, all signals, all temps and the guard.

A valid naming keeps them apart as long as no variable has a reserved name
(`Naming.keepsApart`).  The stems tell signals, temps and the guard from each other; behind one stem
it is the counter or the suffix, and suffixes are different for different temps
(`Suffix.ofNat_injective`).
-/

namespace Microstep

/-- Whether a register can be used by a state whose variables are `names`. -/
def Register.IsOf (names : List String) : Register → Prop
  | .user v => v ∈ names
  | .signal _ => True
  | .temp _ => True
  | .guard => True

/-- **Schemes that keep the registers of a state apart.** -/
def RegisterScheme.KeepsApart {ρ : Type} (scheme : RegisterScheme ρ) (names : List String) : Prop :=
  ∀ {r r' : Register}, r.IsOf names → r'.IsOf names → scheme.render r = scheme.render r' → r = r'

lemma RegisterScheme.KeepsApart.ne {ρ : Type} {scheme : RegisterScheme ρ} {names : List String}
    (h : scheme.KeepsApart names) (r r' : Register) (hr : r.IsOf names) (hr' : r'.IsOf names)
    (hne : r ≠ r') : scheme.render r ≠ scheme.render r' :=
  fun heq => hne (h hr hr' heq)

namespace Naming

lemma startsWith_iff {name stem : String} :
    startsWith name stem = true ↔ stem.toList <+: name.toList :=
  List.isPrefixOf_iff_prefix

lemma startsWith_append (stem rest : String) : startsWith (stem ++ rest) stem = true := by
  rw [startsWith_iff, String.toList_append]
  exact List.prefix_append _ _

/-- Of two stems that a name starts with, one starts with the other. -/
lemma startsWith_total {name stem stem' : String} (h : startsWith name stem = true)
    (h' : startsWith name stem' = true) :
    startsWith stem stem' = true ∨ startsWith stem' stem = true := by
  rw [startsWith_iff] at h h'
  rw [startsWith_iff, startsWith_iff]
  exact (List.prefix_or_prefix_of_prefix h h').symm

/-- **What a valid naming is.** -/
lemma validate_eq_ok_iff {n n' : Naming} :
    n.validate = .ok n' ↔
      n' = n ∧ (n.guard ≠ "" ∧ n.signalStem ≠ "" ∧ n.tempStem ≠ "")
        ∧ (startsWith n.signalStem n.tempStem = false ∧ startsWith n.tempStem n.signalStem = false)
        ∧ startsWith n.guard n.signalStem = false ∧ startsWith n.guard n.tempStem = false := by
  have hempty : n.settings.find? (fun x => x.2 == "") = none ↔
      n.guard ≠ "" ∧ n.signalStem ≠ "" ∧ n.tempStem ≠ "" := by
    simp [settings]
  have hguard : [n.signalStem, n.tempStem].find? (startsWith n.guard) = none ↔
      startsWith n.guard n.signalStem = false ∧ startsWith n.guard n.tempStem = false := by
    simp
  rw [← hempty, ← hguard, ← Bool.or_eq_false_iff]
  unfold validate
  constructor
  · intro h
    split at h
    · cases h
    · next hnone =>
        split_ifs at h with hstems
        split at h
        · cases h
        · next hnone' =>
            exact ⟨(Except.ok.inj h).symm, hnone, Bool.eq_false_of_not_eq_true hstems, hnone'⟩
  · rintro ⟨rfl, hnone, hstems, hnone'⟩
    split
    · next hsome => cases hsome.symm.trans hnone
    · rw [hstems, hnone']
      rfl

/-- Whether a name is taken by a naming: the guard, or anything behind one of the stems. -/
def Reserves (n : Naming) (name : String) : Prop :=
  name = n.guard ∨ startsWith name n.signalStem = true ∨ startsWith name n.tempStem = true

instance (n : Naming) (name : String) : Decidable (n.Reserves name) :=
  inferInstanceAs (Decidable (_ ∨ _))

section

variable {n : Naming} {names : List String} {r : Register}

lemma startsWith_signal (n : Naming) (counter : String) :
    startsWith (n.signal counter) n.signalStem = true := startsWith_append _ _

lemma startsWith_temp (n : Naming) (index : Nat) :
    startsWith (n.temp index) n.tempStem = true := startsWith_append _ _

/-- No name starts with both stems of a valid naming. -/
lemma not_startsWith_both (hvalid : n.validate = .ok n) {name : String}
    (hsignal : startsWith name n.signalStem = true)
    (htemp : startsWith name n.tempStem = true) : False := by
  obtain ⟨_, _, ⟨hst, hts⟩, _⟩ := validate_eq_ok_iff.mp hvalid
  rcases startsWith_total hsignal htemp with h | h
  · rw [h] at hst
    cases hst
  · rw [h] at hts
    cases hts

/-- What starts with the stem of signals is a signal. -/
lemma eq_signal_of_startsWith (hvalid : n.validate = .ok n) (hfree : ∀ v ∈ names, ¬ n.Reserves v)
    (hr : r.IsOf names) (h : startsWith (n.scheme.render r) n.signalStem = true) :
    ∃ counter, r = .signal counter := by
  cases r with
  | user v => exact absurd (Or.inr (Or.inl h)) (hfree v hr)
  | signal counter => exact ⟨counter, rfl⟩
  | temp index => exact (not_startsWith_both hvalid h (n.startsWith_temp index)).elim
  | guard =>
      have hguard : startsWith n.guard n.signalStem = false :=
        (validate_eq_ok_iff.mp hvalid).2.2.2.1
      exact absurd (hguard.symm.trans h) Bool.false_ne_true

/-- What starts with the stem of temps is a temp. -/
lemma eq_temp_of_startsWith (hvalid : n.validate = .ok n) (hfree : ∀ v ∈ names, ¬ n.Reserves v)
    (hr : r.IsOf names) (h : startsWith (n.scheme.render r) n.tempStem = true) :
    ∃ index, r = .temp index := by
  cases r with
  | user v => exact absurd (Or.inr (Or.inr h)) (hfree v hr)
  | signal counter => exact (not_startsWith_both hvalid (n.startsWith_signal counter) h).elim
  | temp index => exact ⟨index, rfl⟩
  | guard =>
      have hguard : startsWith n.guard n.tempStem = false :=
        (validate_eq_ok_iff.mp hvalid).2.2.2.2
      exact absurd (hguard.symm.trans h) Bool.false_ne_true

end

/-- **A valid naming keeps registers apart**, unless a variable has a reserved name. -/
theorem keepsApart {n : Naming} (hvalid : n.validate = .ok n) {names : List String}
    (hfree : ∀ v ∈ names, ¬ n.Reserves v) : n.scheme.KeepsApart names := by
  -- the stems tell the kind of the other register; within a kind, what stands behind them
  intro r r' hr hr' h
  cases r with
  | signal counter =>
      have hstem : startsWith (n.scheme.render r') n.signalStem = true :=
        h ▸ n.startsWith_signal counter
      obtain ⟨counter', rfl⟩ := eq_signal_of_startsWith hvalid hfree hr' hstem
      exact congrArg Register.signal (String.append_right_inj _ |>.mp h)
  | temp index =>
      have hstem : startsWith (n.scheme.render r') n.tempStem = true :=
        h ▸ n.startsWith_temp index
      obtain ⟨index', rfl⟩ := eq_temp_of_startsWith hvalid hfree hr' hstem
      exact congrArg Register.temp (Suffix.ofNat_injective (String.append_right_inj _ |>.mp h))
  | user v =>
      cases r' with
      | user v' => exact congrArg Register.user h
      | signal counter =>
          have hstem : startsWith v n.signalStem = true := by
            rw [show v = n.signal counter from h, startsWith_signal]
          exact absurd (Or.inr (Or.inl hstem)) (hfree v hr)
      | temp index =>
          have hstem : startsWith v n.tempStem = true := by
            rw [show v = n.temp index from h, startsWith_temp]
          exact absurd (Or.inr (Or.inr hstem)) (hfree v hr)
      | guard => exact absurd (Or.inl h) (hfree v hr)
  | guard =>
      obtain ⟨_, _, _, hsignal, htemp⟩ := validate_eq_ok_iff.mp hvalid
      cases r' with
      | guard => rfl
      | user v => exact absurd (Or.inl h.symm) (hfree v hr')
      | signal counter =>
          rw [show n.guard = n.signal counter from h, startsWith_signal] at hsignal
          cases hsignal
      | temp index =>
          rw [show n.guard = n.temp index from h, startsWith_temp] at htemp
          cases htemp

end Naming

end Microstep
