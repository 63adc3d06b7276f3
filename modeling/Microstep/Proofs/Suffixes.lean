import Mathlib
import Microstep.Lowering.Reduction
import Microstep.Register.Naming

/-!
# Suffixes list all words

A suffix is written from its last letter to its first, and each letter but the first takes one away
from the number that is left to write.  This is what makes it a count without a zero: `Z` is
followed by `AA`, not by `BA`.

* `Suffix.Puts` — the rounds in which a suffix is written, which always come to an end;
* `Suffix.rank` — where a word stands among all words, the empty one included.  It undoes the
  rounds one letter at a time (`Suffix.rank_letters`, `Suffix.letters_rank`);
* `Suffix.Word` — the non-empty words, shorter ones first (`Suffix.Word.Before`);
* `Suffix.order` — the numbers in their order are the words in theirs;
* `Naming.issue` — temps that are issued one after the other.

A letter at the end decides between two words only if nothing before it does
(`Suffix.shortlex_concat`), and this is also how division by 26 compares numbers; so the order needs
an induction along the rounds and no arithmetic with powers of 26.
-/

namespace Microstep

namespace Suffix

/-! ## Letters -/

lemma toNat_letter (n : Nat) : (letter n).toNat = 65 + n % 26 := by
  have hlt : n % 26 < 26 := Nat.mod_lt n (by decide)
  have hvalid : (65 + n % 26).isValidChar := Or.inl (by omega)
  exact (Char.toNat_ofNat _).trans (if_pos hvalid)

lemma letter_bounds (n : Nat) : 'A' ≤ letter n ∧ letter n ≤ 'Z' := by
  have hlt : n % 26 < 26 := Nat.mod_lt n (by decide)
  have hnat := toNat_letter n
  constructor
  · show 65 ≤ (letter n).toNat
    omega
  · show (letter n).toNat ≤ 90
    omega

lemma letter_lt {m n : Nat} (h : m % 26 < n % 26) : letter m < letter n := by
  show (letter m).toNat < (letter n).toNat
  rw [toNat_letter, toNat_letter]
  omega

lemma letters_ne_nil (n : Nat) : letters n ≠ [] := by
  fun_cases letters n <;> simp

/-- A suffix is made of letters. -/
lemma letters_bounds (n : Nat) : ∀ l ∈ letters n, 'A' ≤ l ∧ l ≤ 'Z' := by
  fun_induction letters n with
  | case1 n _ => exact List.forall_mem_singleton.mpr (letter_bounds n)
  | case2 n _ ih =>
      exact List.forall_mem_append.mpr ⟨ih, List.forall_mem_singleton.mpr (letter_bounds n)⟩

/-! ## Writing a suffix -/

/-- **The rounds in which a suffix is written.**  From `n` on they come to an end, and they have put
down `put` by then, the last letter of the suffix first. -/
inductive Puts : Nat → List Char → Prop
  | last {n : Nat} (h : n < 26) : Puts n [letter n]
  | next {n : Nat} {put : List Char} (h : 26 ≤ n) (rest : Puts (n / 26 - 1) put) :
      Puts n (letter n :: put)

/-- The rounds come to an end at every number. -/
lemma puts_letters (n : Nat) : Puts n (letters n).reverse := by
  fun_induction letters n with
  | case1 n hlt => simpa using Puts.last hlt
  | case2 n hge ih => simpa using Puts.next (Nat.not_lt.mp hge) ih

/-! ## Where a word stands -/

/-- What a letter counts for, from one for `A` on. -/
def weight (c : Char) : Nat := c.toNat - 64

/-- Where a word stands among all words over the letters, of which the empty one is the first. -/
def rank (w : List Char) : Nat := w.foldl (fun k c => 26 * k + weight c) 0

@[simp] lemma rank_nil : rank [] = 0 := rfl

@[simp] lemma rank_concat (w : List Char) (c : Char) :
    rank (w ++ [c]) = 26 * rank w + weight c := by
  simp [rank]

lemma weight_letter (n : Nat) : weight (letter n) = n % 26 + 1 := by
  rw [weight, toNat_letter]
  omega

lemma weight_bounds {c : Char} (h : 'A' ≤ c ∧ c ≤ 'Z') : 1 ≤ weight c ∧ weight c ≤ 26 := by
  have hA : 65 ≤ c.toNat := h.1
  have hZ : c.toNat ≤ 90 := h.2
  unfold weight
  omega

/-- A letter is told by what it counts for. -/
lemma letter_eq {c : Char} (h : 'A' ≤ c ∧ c ≤ 'Z') {n : Nat} (hn : n % 26 + 1 = weight c) :
    letter n = c := by
  have hA : 65 ≤ c.toNat := h.1
  have hsame : (letter n).toNat = c.toNat := by
    rw [toNat_letter]
    unfold weight at hn
    omega
  rw [← Char.ofNat_toNat (letter n), hsame, Char.ofNat_toNat]

/-- **A suffix stands where its number says**, after the empty word. -/
theorem rank_letters (n : Nat) : rank (letters n) = n + 1 := by
  fun_induction letters n with
  | case1 n hlt =>
      have hone : rank [letter n] = weight (letter n) := by simp [rank]
      rw [hone, weight_letter]
      omega
  | case2 n hge ih =>
      rw [rank_concat, ih, weight_letter]
      omega

/-- **Different numbers have different suffixes.** -/
theorem letters_injective : Function.Injective letters := by
  intro m n h
  have hrank : rank (letters m) = rank (letters n) := by rw [h]
  rw [rank_letters, rank_letters] at hrank
  omega

theorem ofNat_injective : Function.Injective ofNat := by
  intro m n h
  exact letters_injective (String.ofList_injective h)

/-- **Every non-empty word is the suffix of the number before its own.** -/
theorem letters_rank {w : List Char} (hne : w ≠ []) (h : ∀ c ∈ w, 'A' ≤ c ∧ c ≤ 'Z') :
    letters (rank w - 1) = w := by
  -- suffixes grow at their end, so the word is taken apart from there
  induction w using List.reverseRecOn with
  | nil => exact absurd rfl hne
  | append_singleton w c ih =>
      obtain ⟨hw, hlast⟩ := List.forall_mem_append.mp h
      have hc := List.forall_mem_singleton.mp hlast
      have hweight := weight_bounds hc
      rw [rank_concat]
      by_cases hnil : w = []
      · subst hnil
        rw [letters_of_lt (by simp; omega), letter_eq hc (by simp; omega), List.nil_append]
      · have hprefix := ih hnil hw
        have hpos : 1 ≤ rank w := by
          rw [← hprefix, rank_letters]
          omega
        rw [letters_of_le (by omega), letter_eq hc (by omega),
          show (26 * rank w + weight c - 1) / 26 - 1 = rank w - 1 by omega, hprefix]

/-! ## The order of words -/

/-- What stands behind two words of one length does not matter if they differ. -/
lemma lex_append {s t : List Char} (h : List.Lex (· < ·) s t) (hlength : s.length = t.length)
    (u v : List Char) : List.Lex (· < ·) (s ++ u) (t ++ v) := by
  induction h with
  | nil => simp at hlength
  | cons _ ih => exact List.Lex.cons (ih (by simpa using hlength))
  | rel hlt => exact List.Lex.rel hlt

/-- **Another letter at the end of each of two words leaves their order as it is.** -/
lemma shortlex_concat {s t : List Char} (h : List.Shortlex (· < ·) s t) (a b : Char) :
    List.Shortlex (· < ·) (s ++ [a]) (t ++ [b]) := by
  rcases List.shortlex_def.mp h with hshorter | ⟨hlength, hlex⟩
  · exact List.Shortlex.of_length_lt (by simpa using hshorter)
  · exact List.Shortlex.of_lex (by simpa using hlength) (lex_append hlex hlength [a] [b])

/-- **The suffix of a smaller number comes first.** -/
theorem shortlex_letters {m n : Nat} (h : m < n) :
    List.Shortlex (· < ·) (letters m) (letters n) := by
  induction n using Nat.strong_induction_on generalizing m with
  | _ n ih =>
      rcases Nat.lt_or_ge n 26 with hn | hn
      · rw [letters_of_lt hn, letters_of_lt (by omega), List.shortlex_singleton_iff]
        exact letter_lt (by omega)
      · rw [letters_of_le hn]
        rcases Nat.lt_or_ge m 26 with hm | hm
        · have hpos : 0 < (letters (n / 26 - 1)).length :=
            List.length_pos_of_ne_nil (letters_ne_nil _)
          rw [letters_of_lt hm]
          exact List.Shortlex.of_length_lt (by simpa using hpos)
        · rw [letters_of_le hm]
          -- the quotients decide, and the last letters only if the quotients are the same
          rcases Nat.lt_or_ge (m / 26) (n / 26) with hdiv | hdiv
          · exact shortlex_concat (ih (n / 26 - 1) (by omega) (by omega)) _ _
          · have hsame : m / 26 = n / 26 := le_antisymm (Nat.div_le_div_right h.le) hdiv
            have hlast : List.Shortlex (· < ·) [letter m] [letter n] :=
              (List.shortlex_singleton_iff _ _).mpr (letter_lt (by omega))
            rw [hsame]
            exact hlast.append_left _

/-- **Suffixes come in the order of their numbers.** -/
theorem shortlex_letters_iff {m n : Nat} :
    List.Shortlex (· < ·) (letters m) (letters n) ↔ m < n := by
  refine ⟨fun h => ?_, shortlex_letters⟩
  by_contra hle
  rcases Nat.lt_or_eq_of_le (Nat.not_lt.mp hle) with hlt | rfl
  · exact Std.Asymm.asymm _ _ h (shortlex_letters hlt)
  · exact Std.Irrefl.irrefl _ h

/-! ## Words -/

/-- The non-empty words over the letters `A` to `Z`. -/
@[ext] structure Word where
  text : String
  ne_empty : text ≠ ""
  bounds : ∀ c ∈ text.toList, 'A' ≤ c ∧ c ≤ 'Z'

/-- **Shorter words come first**, and words of one length as in a dictionary. -/
def Word.Before (v w : Word) : Prop := List.Shortlex (· < ·) v.text.toList w.text.toList

lemma toList_ofNat (n : Nat) : (ofNat n).toList = letters n := String.toList_ofList

/-- A suffix, as a word. -/
def word (n : Nat) : Word where
  text := ofNat n
  ne_empty := by
    intro hempty
    exact letters_ne_nil n (by rw [← toList_ofNat, hempty, String.toList_empty])
  bounds := by
    rw [toList_ofNat]
    exact letters_bounds n

/-- The number a word is the suffix of. -/
def Word.index (w : Word) : Nat := rank w.text.toList - 1

lemma Word.ofNat_index (w : Word) : ofNat w.index = w.text := by
  have hne : w.text.toList ≠ [] := String.toList_eq_nil_iff.not.mpr w.ne_empty
  rw [ofNat, index, letters_rank hne w.bounds, String.ofList_toList]

lemma index_word (n : Nat) : (word n).index = n := by
  show rank (ofNat n).toList - 1 = n
  rw [toList_ofNat, rank_letters]
  omega

/-- **The numbers in their order are the words in theirs.** -/
def order : ((· < ·) : Nat → Nat → Prop) ≃r Word.Before where
  toFun := word
  invFun := Word.index
  left_inv := index_word
  right_inv w := Word.ext w.ofNat_index
  map_rel_iff' := by
    intro m n
    show List.Shortlex (· < ·) (ofNat m).toList (ofNat n).toList ↔ m < n
    rw [toList_ofNat, toList_ofNat, shortlex_letters_iff]

/-- The order of suffixes, spelled out. -/
lemma lt_iff_ofNat {m n : Nat} :
    m < n ↔ (ofNat m).length < (ofNat n).length
      ∨ (ofNat m).length = (ofNat n).length ∧ ofNat m < ofNat n := by
  rw [← shortlex_letters_iff, List.shortlex_def, String.lt_iff, ← String.length_toList,
    ← String.length_toList, toList_ofNat, toList_ofNat]
  exact Iff.rfl

/-- A text is a word exactly if it is the suffix of one number and of no other. -/
lemma word_iff_existsUnique {w : String} :
    (w ≠ "" ∧ ∀ c ∈ w.toList, 'A' ≤ c ∧ c ≤ 'Z') ↔ ∃! n, ofNat n = w := by
  constructor
  · rintro ⟨hne, hbounds⟩
    let v : Word := { text := w, ne_empty := hne, bounds := hbounds }
    exact ⟨v.index, v.ofNat_index, fun n hn => ofNat_injective (hn.trans v.ofNat_index.symm)⟩
  · rintro ⟨n, rfl, _⟩
    exact ⟨(word n).ne_empty, (word n).bounds⟩

end Suffix

/-! ## Temps -/

/-- Different temps have different names, whatever their stem is. -/
lemma Naming.temp_injective (n : Naming) : Function.Injective n.temp := by
  intro i j h
  exact Suffix.ofNat_injective (String.append_right_inj _ |>.mp h)

/-- The registers of as many temps as there are `calls`, issued one after the other when `issued`
are in use already. -/
def Naming.issue (n : Naming) : (calls issued : Nat) → List String
  | 0, _ => []
  | calls + 1, issued =>
    n.temp (Reduction.fresh issued).1 :: n.issue calls (Reduction.fresh issued).2

/-- A temp that is issued has the suffix of the number of temps before it. -/
lemma Naming.issue_eq (n : Naming) (calls issued : Nat) :
    n.issue calls issued
      = (List.range' issued calls).map fun i => n.tempStem ++ Suffix.ofNat i := by
  induction calls generalizing issued with
  | zero => rfl
  | succ calls ih =>
      rw [issue, ih, List.range'_succ, List.map_cons]
      rfl

/-- **Suffixes list all words once, shorter ones first.**

* The rounds in which a suffix is written come to an end at every number, and the suffix is what
  they put down, from its end.
* Suffixes are an isomorphism between the numbers and the non-empty words over the letters: of two
  numbers the smaller one has the shorter suffix, or the one that comes first in a dictionary, and
  the words are exactly the texts that are the suffix of one number and of no other.
* So temps that are issued one after the other are different registers, whatever their stem is and
  however many are in use already. -/
theorem Suffix.ofNat_enumerates :
    (∀ n : Nat, ∃ put : List Char, Puts n put ∧ ofNat n = String.ofList put.reverse)
    ∧ (∃ iso : ((· < ·) : Nat → Nat → Prop) ≃r Word.Before, ∀ n, (iso n).text = ofNat n)
    ∧ (∀ m n : Nat, m < n ↔ (ofNat m).length < (ofNat n).length
        ∨ (ofNat m).length = (ofNat n).length ∧ ofNat m < ofNat n)
    ∧ (∀ w : String, (w ≠ "" ∧ ∀ c ∈ w.toList, 'A' ≤ c ∧ c ≤ 'Z') ↔ ∃! n, ofNat n = w)
    ∧ ∀ (n : Naming) (calls issued : Nat),
        n.issue calls issued = (List.range' issued calls).map (fun i => n.tempStem ++ ofNat i)
        ∧ (n.issue calls issued).Nodup := by
  refine ⟨?_, ⟨order, fun n => rfl⟩, fun m n => lt_iff_ofNat, fun w => word_iff_existsUnique, ?_⟩
  · intro n
    exact ⟨(letters n).reverse, puts_letters n, by rw [List.reverse_reverse, ofNat]⟩
  · intro n calls issued
    have hissue := n.issue_eq calls issued
    refine ⟨hissue, ?_⟩
    rw [hissue]
    exact List.Nodup.map n.temp_injective List.nodup_range'

theorem Suffix.ofNat_enumerates_carry :
    (∃! n, ofNat n = "AAA")
    ∧ ((ofNat 701).length < (ofNat 702).length
        ∨ (ofNat 701).length = (ofNat 702).length ∧ ofNat 701 < ofNat 702)
    ∧ Naming.standard.issue 3 700 = ["INT_ZY", "INT_ZZ", "INT_AAA"]
    ∧ (Naming.standard.issue 3 700).Nodup := by
  obtain ⟨_, _, horder, hwords, hissue⟩ := Suffix.ofNat_enumerates
  obtain ⟨hnames, hnodup⟩ := hissue Naming.standard 3 700
  have hletters : "AAA" ≠ "" ∧ ∀ c ∈ "AAA".toList, 'A' ≤ c ∧ c ≤ 'Z' := by simp
  exact ⟨(hwords "AAA").mp hletters, (horder 701 702).mp (by decide),
    hnames.trans (by decide +kernel), hnodup⟩

end Microstep
