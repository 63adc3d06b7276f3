import Microstep.Proofs.MachineText
import Microstep.Proofs.ProgramText

/-!
# Compiling texts

Compiling goes from the text of a machine to the text of its program.  It can fail in two ways only,
and then the machine itself failed in that way: it could not be read, or it could not be lowered.
What comes out otherwise is read as the lowered machine (`compile_outcomes`).

That the output can be read is a fact about lowering, not about texts.  Reading allows 127 levels of
nesting, and a condition may use up nearly all of them; its program does not nest at all, since an
operation becomes a compute of its own.  The operators of the program have symbols that stand for
them, as they were read from symbols or are multiplications, and its timers are those of the machine,
at the same depth.
-/

namespace Microstep

open Json (Layout)

/-- **What is lowered from a machine that was read can be read.** -/
theorem Machine.IsRead.ofText_lowered {scheme : RegisterScheme String} {m : Machine Json}
    {p : Program String Json} (hread : m.IsRead) (hlower : m.lower scheme = .ok p)
    (hfloat : ∀ t ∈ m.timers, t.isFloatFree = true) {layout : Layout} (hlayout : layout.IsBlank) :
    Program.ofText .json (p.json.text layout) = .ok p := by
  have hlow := Machine.lower_eq_ok hlower
  refine Program.ofText_text hlayout (fun op hop => ?_) fun t ht => ?_
  · rcases hlow.mem_operators hop with rfl | hmem
    · rfl
    · exact hread.canonical op hmem
  · rw [hlow.timers_eq] at ht
    exact ⟨hfloat t ht, hread.timers t ht⟩

/-- **The ways in which compiling can end.** -/
lemma compile_cases (naming : Naming) (text : String) :
    (∃ fault, Machine.ofText .json text = .error fault
        ∧ compile naming text = .error (.unreadable fault))
      ∨ (∃ m e, Machine.ofText .json text = .ok m ∧ m.lower naming.scheme = .error e
        ∧ compile naming text = .error (.rejected e))
      ∨ ∃ m p, Machine.ofText .json text = .ok m ∧ m.lower naming.scheme = .ok p
        ∧ compile naming text = .ok (p.json.text .compact) := by
  cases hm : Machine.ofText .json text with
  | error fault => exact Or.inl ⟨fault, rfl, by rw [compile, compileWith, hm]⟩
  | ok m =>
      cases hp : m.lower naming.scheme with
      | error e =>
          refine Or.inr (Or.inl ⟨m, e, rfl, hp, ?_⟩)
          rw [compile, compileWith, hm]
          simp only [hp]
      | ok p =>
          refine Or.inr (Or.inr ⟨m, p, rfl, hp, ?_⟩)
          rw [compile, compileWith, hm]
          simp only [hp, Program.text?_json]

/-- **Compiling fails as its machine does, and its output is the lowered machine.**  The text is
refused exactly when it cannot be read, with the same fault, or when its machine cannot be lowered,
with the same error; writing never fails.  An output is read as the program that the machine is
lowered to, if no timer has a float. -/
theorem compile_outcomes (naming : Naming) (text : String) :
    (∀ fault, compile naming text = .error (.unreadable fault)
        ↔ Machine.ofText .json text = .error fault)
      ∧ (∀ e, compile naming text = .error (.rejected e)
        ↔ ∃ m, Machine.ofText .json text = .ok m ∧ m.lower naming.scheme = .error e)
      ∧ compile naming text ≠ .error .unwritable
      ∧ ∀ out, compile naming text = .ok out →
          ∃ m p, Machine.ofText .json text = .ok m ∧ m.lower naming.scheme = .ok p
            ∧ ((∀ t ∈ m.timers, t.isFloatFree = true) → Program.ofText .json out = .ok p) := by
  rcases compile_cases naming text with
    ⟨fault, hm, hcompile⟩ | ⟨m, e, hm, hp, hcompile⟩ | ⟨m, p, hm, hp, hcompile⟩
  · simp [hm, hcompile]
  · simp [hm, hp, hcompile]
  · refine ⟨by simp [hm, hcompile], by simp [hm, hp, hcompile], by simp [hcompile], ?_⟩
    intro out hout
    rw [hcompile] at hout
    cases hout
    refine ⟨m, p, hm, hp, fun hfloat => ?_⟩
    exact (Machine.isRead_of_ofText hm).ofText_lowered hp hfloat Layout.isBlank_compact

/-- A text with records as arrays, escapes, a second spelling of an operator and members out of
order. -/
def sketch : String :=
  "[[\x7b\"b\":[1,-2],\"a\":null\x7d],[[7,[[\"X\",1,\"+\",\"X\"]],[[\x7b\"operator\":\"==\","
    ++ "\"left\":\x7b\"left\":\"X\",\"operator\":\"mod\",\"right\":3\x7d,"
    ++ "\"right\":\"\\u00e9\\n\\\"\"\x7d,\"end\"]]],[\"end\",[],[]]]]"

/-- What it is the text of. -/
def sketched : Machine Json :=
  { timers := [.obj [("a", .null), ("b", .arr [.int64 1, .int64 (-2)])]]
    states :=
      [ { id := .numeric 7
          statements := [.increment "X" (.leaf (.literal 1))]
          transitions :=
            [ { condition :=
                  some (.node (.node (.leaf (.name "X")) (.other "mod") (.leaf (.literal 3))) .eq
                    (.leaf (.name "é\n\"")))
                target := .symbolic "end" } ] },
        { id := .symbolic "end", statements := [], transitions := [] } ] }

theorem compile_outcomes_sketch :
    ∃ out p, compile .standard sketch = .ok out
      ∧ sketched.lower Naming.standard.scheme = .ok p ∧ Program.ofText .json out = .ok p := by
  have hread : Machine.ofText .json sketch = .ok sketched := by decide +kernel
  have hlower : (sketched.lower Naming.standard.scheme).isOk = true := by cbv
  obtain ⟨hunreadable, hrejected, hunwritable, hok⟩ := compile_outcomes .standard sketch
  cases hcompile : compile .standard sketch with
  | error e =>
      cases e with
      | unreadable fault =>
          have hfault := (hunreadable fault).mp hcompile
          rw [hread] at hfault
          cases hfault
      | rejected e =>
          obtain ⟨m, hm, he⟩ := (hrejected e).mp hcompile
          rw [hread] at hm
          cases hm
          rw [he] at hlower
          cases hlower
      | unwritable => exact absurd hcompile hunwritable
  | ok out =>
      obtain ⟨m, p, hm, hp, hout⟩ := hok out hcompile
      rw [hread] at hm
      cases hm
      exact ⟨out, p, rfl, hp, hout (by decide)⟩

end Microstep
