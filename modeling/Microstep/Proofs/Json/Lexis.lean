import Mathlib
import Microstep.Json.Token

/-!
# Strings and integers as they are written

The two kinds of tokens that are made of more than a fixed word, and why reading them gives what was
written.

**Strings.**  A character is written in one of three ways, told apart once (`Quoted.escape_cases`).
Each is resolved to the code of the character, and as no character is half of a surrogate pair the
codes give the string back (`Quoted.ofQuoted?_escape`), whatever characters it has.

**Integers.**  The digits of an integer have no zero in front, so they are a numeral
(`Numeral.ofChars?_intNumeral`), and it stands for that integer as long as it fits a word
(`Numeral.value?_intNumeral`).
-/

namespace Microstep.Json

/-! ## Strings -/

namespace Quoted

/-- **How a character is written**: by a letter behind a backslash, by its code if it is another
control character, or as it is. -/
lemma escape_cases (c : Char) :
    (∃ x, escape c = ['\\', x] ∧ letterCode? x = some c.toNat)
      ∨ (escape c = ['\\', 'u', '0', '0', hexDigit (c.toNat / 16), hexDigit c.toNat]
          ∧ c.toNat < 32)
      ∨ (escape c = [c] ∧ c ≠ '"' ∧ c ≠ '\\' ∧ ¬ c < ' ') := by
  unfold escape
  split
  case h_8 hquote hbackslash _ _ _ _ _ =>
    split_ifs with hlt
    · exact Or.inr (Or.inl ⟨rfl, hlt⟩)
    · exact Or.inr (Or.inr ⟨rfl, hquote, hbackslash, hlt⟩)
  all_goals exact Or.inl ⟨_, rfl, rfl⟩

lemma codes?_letter {x : Char} {n : Nat} (h : letterCode? x = some n) (rest : List Char) :
    codes? ('\\' :: x :: rest) = (codes? rest).map (n :: ·) := by
  have hx : x ≠ 'u' := by
    rintro rfl
    cases h
  rw [codes?, h]
  · cases codes? rest <;> rfl
  · rintro a b c d more rfl
    exact absurd rfl hx

lemma hexValue?_hexDigit (n : Nat) : hexValue? (hexDigit n) = some (n % 16) := by
  have hall : ∀ k < 16, hexValue? (Nat.digitChar k) = some k := by decide
  exact hall _ (Nat.mod_lt _ (by decide))

lemma codes?_hex (c : Char) (h : c.toNat < 32) (rest : List Char) :
    codes? ('\\' :: 'u' :: '0' :: '0' :: hexDigit (c.toNat / 16) :: hexDigit c.toNat :: rest)
      = (codes? rest).map (c.toNat :: ·) := by
  have hcode : hexCode? '0' '0' (hexDigit (c.toNat / 16)) (hexDigit c.toNat) = some c.toNat := by
    have hzero : hexValue? '0' = some 0 := rfl
    simp only [hexCode?, hexValue?_hexDigit, hzero]
    simp
    omega
  rw [codes?, hcode]
  cases codes? rest <;> rfl

lemma codes?_plain {c : Char} (hbackslash : c ≠ '\\') (hcontrol : ¬ c < ' ') (rest : List Char) :
    codes? (c :: rest) = (codes? rest).map (c.toNat :: ·) := by
  rw [codes?, if_neg (not_or.mpr ⟨hbackslash, hcontrol⟩)]
  · cases codes? rest <;> rfl
  · rintro a b c d more rfl
    exact absurd rfl hbackslash
  · rintro a more rfl
    exact absurd rfl hbackslash

/-- A character that was written is resolved to its code. -/
lemma codes?_escape_append (c : Char) (rest : List Char) :
    codes? (escape c ++ rest) = (codes? rest).map (c.toNat :: ·) := by
  rcases escape_cases c with ⟨x, hx, hcode⟩ | ⟨hhex, hlt⟩ | ⟨hplain, _, hbackslash, hcontrol⟩
  · rw [hx]
    exact codes?_letter hcode rest
  · rw [hhex]
    exact codes?_hex c hlt rest
  · rw [hplain]
    exact codes?_plain hbackslash hcontrol rest

lemma codes?_flatMap_escape (cs : List Char) :
    codes? (cs.flatMap escape) = some (cs.map Char.toNat) := by
  induction cs with
  | nil => rfl
  | cons c cs ih => rw [List.flatMap_cons, codes?_escape_append, ih, Option.map_some, List.map_cons]

/-- No character is half of a surrogate pair. -/
lemma chars?_map_toNat (cs : List Char) : chars? (cs.map Char.toNat) = some cs := by
  induction cs with
  | nil => rfl
  | cons c cs ih =>
      have hvalid : c.toNat < 0xd800 ∨ 0xdfff < c.toNat ∧ c.toNat < 0x110000 := c.valid
      have hhigh : isHigh c.toNat = false := by simp [isHigh]; omega
      have hlow : isLow c.toNat = false := by simp [isLow]; omega
      rw [List.map_cons, chars?.eq_def]
      simp [hhigh, hlow, ih, Char.ofNat_toNat]

/-- **Reading the text between quotes undoes writing it.** -/
theorem ofQuoted?_escape (s : String) :
    Token.ofQuoted? (s.toList.flatMap escape) = some (.str (some s)) := by
  rw [Token.ofQuoted?, codes?_flatMap_escape, Option.map_some, string?, chars?_map_toNat,
    Option.map_some, String.ofList_toList]

end Quoted

/-! ## Integers -/

namespace Numeral

/-- The digits of a number do not start with a zero, unless it is zero. -/
lemma head?_toDigits {n : Nat} (h : 0 < n) : (Nat.toDigits 10 n).head? ≠ some '0' := by
  induction n using Nat.strong_induction_on with
  | _ n ih =>
      rw [Nat.toDigits_eq_if (by decide)]
      split_ifs with hlt
      · simpa [Nat.digitChar_eq_zero] using h.ne'
      · rw [List.head?_append_of_ne_nil _ Nat.toDigits_ne_nil]
        exact ih (n / 10) (by omega) (by omega)

lemma digits?_toDigits (n : Nat) :
    digits? (Nat.toDigits 10 n) = some (Nat.toDigits 10 n, []) := by
  have hdigit : ∀ c ∈ Nat.toDigits 10 n, c.isDigit = true := fun c hc =>
    Nat.isDigit_of_mem_toDigits (by decide) (by decide) hc
  have hspan : (Nat.toDigits 10 n).span Char.isDigit = (Nat.toDigits 10 n, []) := by
    rw [List.span_eq_takeWhile_dropWhile, List.takeWhile_eq_self_iff.mpr hdigit,
      List.dropWhile_eq_nil_iff.mpr hdigit]
  rw [digits?, hspan]
  split
  case h_1 heq => exact absurd (congrArg Prod.fst heq) Nat.toDigits_ne_nil
  case h_2 heq => rw [← heq]

lemma unsigned?_toDigits (negative : Bool) (n : Nat) :
    unsigned? negative (Nat.toDigits 10 n)
      = some { negative, whole := Nat.toDigits 10 n, fraction := [], exponent := none } := by
  have hguard : (Nat.toDigits 10 n).head? ≠ some '0' ∨ Nat.toDigits 10 n = ['0'] := by
    rcases Nat.eq_zero_or_pos n with rfl | hpos
    · exact Or.inr (Nat.toDigits_zero 10)
    · exact Or.inl (head?_toDigits hpos)
  simp [unsigned?, digits?_toDigits, hguard, exponent?]

lemma chars_intNumeral (n : Int) :
    (Number.intNumeral n).chars
      = (if n < 0 then ['-'] else []) ++ Nat.toDigits 10 n.natAbs := by
  simp [Number.intNumeral, chars]

/-- **Reading a written integer gives its numeral.** -/
theorem ofChars?_intNumeral (n : Int) :
    ofChars? (Number.intNumeral n).chars = some (Number.intNumeral n) := by
  rw [chars_intNumeral]
  split_ifs with hneg
  · rw [List.singleton_append, ofChars?, unsigned?_toDigits]
    simp [Number.intNumeral, hneg]
  · rw [List.nil_append, ofChars?, unsigned?_toDigits]
    · simp [Number.intNumeral, hneg]
    · intro cs hcs
      have hmem : '-' ∈ Nat.toDigits 10 n.natAbs := by
        rw [hcs]
        exact List.mem_cons_self
      have hdigit := Nat.isDigit_of_mem_toDigits (by decide) (by decide) hmem
      exact absurd hdigit (by decide)

/-- **The numeral of an integer stands for it.** -/
theorem value?_intNumeral {n : Int} (h : InWordRange n) :
    (Number.intNumeral n).value? = some (.int n h) := by
  have hint : (Number.intNumeral n).int? = some n := by
    rcases lt_or_ge n 0 with hneg | hnonneg
    · simp [int?, Number.intNumeral, Nat.ofDigitChars_ten_toDigits, hneg, hneg.ne,
        abs_of_neg hneg]
    · simp [int?, Number.intNumeral, Nat.ofDigitChars_ten_toDigits, not_lt.mpr hnonneg,
        abs_of_nonneg hnonneg]
  rw [value?, hint, Option.bind_some, Number.ofInt?, dif_pos h]

end Numeral

end Microstep.Json
