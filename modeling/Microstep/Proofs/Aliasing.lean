import Microstep.Proofs.Registers

/-!
# Names that can meet

A naming gives out three families of names: the guard, everything behind the stem of signals, and
everything behind the stem of temps.  The last two are infinite, and validation looks at three names
only.  It is exact nevertheless: a naming is valid if and only if no name is empty and no two
families have a name in common (`Naming.validate_exact`).

A name has a stem if something behind the stem gives the name (`Naming.startsWith_iff_exists`).  Two
stems have a name in common if and only if one of them starts with the other: of two stems of one
name, the longer starts with the shorter, and conversely the longer is a name behind the shorter
(`Naming.exists_append_eq_iff`).
-/

namespace Microstep.Naming

lemma startsWith_iff_exists {name stem : String} :
    startsWith name stem = true ↔ ∃ rest, name = stem ++ rest := by
  constructor
  · intro h
    obtain ⟨rest, hrest⟩ := startsWith_iff.mp h
    refine ⟨String.ofList rest, String.toList_inj.mp ?_⟩
    rw [String.toList_append, String.toList_ofList, hrest]
  · rintro ⟨rest, rfl⟩
    exact startsWith_append stem rest

/-- **Two stems have a name in common** if and only if one starts with the other. -/
lemma exists_append_eq_iff {stem stem' : String} :
    (∃ x y, stem ++ x = stem' ++ y) ↔
      startsWith stem stem' = true ∨ startsWith stem' stem = true := by
  constructor
  · rintro ⟨x, y, h⟩
    exact startsWith_total (startsWith_append stem x) (h ▸ startsWith_append stem' y)
  · rintro (h | h)
    · obtain ⟨rest, rfl⟩ := startsWith_iff_exists.mp h
      exact ⟨"", rest, String.append_empty⟩
    · obtain ⟨rest, rfl⟩ := startsWith_iff_exists.mp h
      exact ⟨rest, "", String.append_empty.symm⟩

/-- **Validation, test by test**, in the order in which the tests are made. -/
lemma validate_eq (n : Naming) :
    n.validate =
      if n.guard = "" then .error (.emptyName "guard_register")
      else if n.signalStem = "" then .error (.emptyName "signal_prefix")
      else if n.tempStem = "" then .error (.emptyName "temp_prefix")
      else if startsWith n.signalStem n.tempStem = true
          ∨ startsWith n.tempStem n.signalStem = true then
        .error (.overlap n.signalStem n.tempStem)
      else if startsWith n.guard n.signalStem = true then .error (.overlap n.guard n.signalStem)
      else if startsWith n.guard n.tempStem = true then .error (.overlap n.guard n.tempStem)
      else .ok n := by
  have hempty : ∀ name : String, (name == "") = decide (name = "") := fun _ => rfl
  simp only [validate, settings, List.find?_cons, List.find?_nil, hempty, Bool.or_eq_true]
  split_ifs <;> simp_all

/-- No two families have a name in common if no name starts with a stem it must not start with. -/
lemma apart_iff {n : Naming} :
    (∀ x y, n.signalStem ++ x ≠ n.tempStem ++ y ∧ n.guard ≠ n.signalStem ++ x
        ∧ n.guard ≠ n.tempStem ++ y) ↔
      (startsWith n.signalStem n.tempStem = false ∧ startsWith n.tempStem n.signalStem = false)
        ∧ startsWith n.guard n.signalStem = false ∧ startsWith n.guard n.tempStem = false := by
  have hname : ∀ {name stem : String}, (∀ rest, name ≠ stem ++ rest) ↔
      startsWith name stem = false := by
    intro name stem
    rw [← Bool.not_eq_true, startsWith_iff_exists, not_exists]
  have hstems : (∀ x y, n.signalStem ++ x ≠ n.tempStem ++ y) ↔
      startsWith n.signalStem n.tempStem = false ∧ startsWith n.tempStem n.signalStem = false := by
    simp only [← Bool.not_eq_true, ← not_or, ← exists_append_eq_iff, not_exists, ne_eq]
  rw [← hstems, ← hname, ← hname]
  constructor
  · intro h
    exact ⟨fun x y => (h x y).1, fun x => (h x "").2.1, fun y => (h "" y).2.2⟩
  · rintro ⟨h, hs, ht⟩ x y
    exact ⟨h x y, hs x, ht y⟩

/-- **When an empty name is told**, and which: the first one. -/
lemma validate_eq_emptyName_iff {n : Naming} {setting : String} :
    n.validate = .error (.emptyName setting) ↔
      (setting = "guard_register" ∧ n.guard = "")
        ∨ (setting = "signal_prefix" ∧ n.guard ≠ "" ∧ n.signalStem = "")
        ∨ (setting = "temp_prefix" ∧ n.guard ≠ "" ∧ n.signalStem ≠ "" ∧ n.tempStem = "") := by
  rw [validate_eq]
  split_ifs <;> grind

/-- **When two names are told to meet**, and which: those of the first test that fails. -/
lemma validate_eq_overlap_iff {n : Naming} {first second : String} :
    n.validate = .error (.overlap first second) ↔
      (n.guard ≠ "" ∧ n.signalStem ≠ "" ∧ n.tempStem ≠ "")
        ∧ ((first = n.signalStem ∧ second = n.tempStem ∧ ∃ x y, n.signalStem ++ x = n.tempStem ++ y)
          ∨ (first = n.guard ∧ second = n.signalStem
            ∧ (¬ ∃ x y, n.signalStem ++ x = n.tempStem ++ y) ∧ ∃ x, n.guard = n.signalStem ++ x)
          ∨ (first = n.guard ∧ second = n.tempStem ∧ (¬ ∃ x y, n.signalStem ++ x = n.tempStem ++ y)
            ∧ (¬ ∃ x, n.guard = n.signalStem ++ x) ∧ ∃ y, n.guard = n.tempStem ++ y)) := by
  rw [validate_eq, exists_append_eq_iff, ← startsWith_iff_exists, ← startsWith_iff_exists]
  split_ifs <;> grind

/-- **Validation is exactly that names cannot meet.**  A naming is valid, and then left as it is, if
and only if no name is empty, no signal and temp share a name, and the guard is neither a signal nor
a temp.  Otherwise the first empty name is told.  If none is empty, two names are told that can be
extended to a common one: the two stems, the guard and the stem of signals, or the guard and the
stem of temps, whichever comes first. -/
theorem validate_exact (n : Naming) :
    (∀ n', n.validate = .ok n' ↔
      n' = n ∧ (n.guard ≠ "" ∧ n.signalStem ≠ "" ∧ n.tempStem ≠ "")
        ∧ ∀ x y, n.signalStem ++ x ≠ n.tempStem ++ y ∧ n.guard ≠ n.signalStem ++ x
          ∧ n.guard ≠ n.tempStem ++ y)
    ∧ (∀ setting, n.validate = .error (.emptyName setting) ↔
      (setting = "guard_register" ∧ n.guard = "")
        ∨ (setting = "signal_prefix" ∧ n.guard ≠ "" ∧ n.signalStem = "")
        ∨ (setting = "temp_prefix" ∧ n.guard ≠ "" ∧ n.signalStem ≠ "" ∧ n.tempStem = ""))
    ∧ (∀ first second, n.validate = .error (.overlap first second) ↔
      (n.guard ≠ "" ∧ n.signalStem ≠ "" ∧ n.tempStem ≠ "")
        ∧ ((first = n.signalStem ∧ second = n.tempStem ∧ ∃ x y, n.signalStem ++ x = n.tempStem ++ y)
          ∨ (first = n.guard ∧ second = n.signalStem
            ∧ (¬ ∃ x y, n.signalStem ++ x = n.tempStem ++ y) ∧ ∃ x, n.guard = n.signalStem ++ x)
          ∨ (first = n.guard ∧ second = n.tempStem ∧ (¬ ∃ x y, n.signalStem ++ x = n.tempStem ++ y)
            ∧ (¬ ∃ x, n.guard = n.signalStem ++ x) ∧ ∃ y, n.guard = n.tempStem ++ y)))
    ∧ ∀ first second, n.validate = .error (.overlap first second) →
      ∃ x y, first ++ x = second ++ y := by
  refine ⟨fun n' => ?_, fun _ => validate_eq_emptyName_iff, fun _ _ => validate_eq_overlap_iff, ?_⟩
  · rw [validate_eq_ok_iff, apart_iff]
  · intro first second h
    obtain ⟨_, ⟨rfl, rfl, hmeet⟩ | ⟨rfl, rfl, _, x, hx⟩ | ⟨rfl, rfl, _, _, y, hy⟩⟩ :=
      validate_eq_overlap_iff.mp h
    · exact hmeet
    · exact ⟨"", x, String.append_empty.trans hx⟩
    · exact ⟨"", y, String.append_empty.trans hy⟩

theorem validate_exact_shadowed :
    validate ⟨"INT_GUARD", "signal_", "INT_"⟩ = .error (.overlap "INT_GUARD" "INT_")
      ∧ ∃ x y, "INT_GUARD" ++ x = "INT_" ++ y := by
  have h : validate ⟨"INT_GUARD", "signal_", "INT_"⟩ = .error (.overlap "INT_GUARD" "INT_") := by
    decide
  exact ⟨h, (validate_exact _).2.2.2 _ _ h⟩

end Microstep.Naming
