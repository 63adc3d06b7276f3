import Mathlib
import Microstep.Json.Printer
import Microstep.Proofs.Json.Lexis
import Microstep.Proofs.Json.Syntax
import Microstep.Proofs.Json.Value

/-!
# Scanning written text

The text of a value is scanned into the tokens of its syntax tree, whichever blanks the layout puts
between them (`Json.spells_textAt`), and so it is read as that tree (`Json.ofText?_text`).

The scanner notices that a word or a numeral has ended only at the character behind it.  What a piece
of text does to it is therefore said in two ways.

* `Scanner.Closes cs ts` — scanning `cs` between tokens adds the tokens `ts` and ends between tokens.
* `Scanner.Spells cs ts` — scanning `cs` between tokens ends where `ts` are complete as soon as a
  delimiter, or the end of the text, comes next.

Punctuation, blanks and strings close; words and numerals only spell.  Pieces are put together by
`Closes.append`, `Closes.append_spells` and, if the second piece starts with a delimiter,
`Spells.append_closes`.
-/

namespace Microstep.Json

namespace Scanner

/-! ## Delimiters -/

/-- The characters that end a word or a numeral: blanks and punctuation. -/
def isDelimiter (c : Char) : Bool := isBlank c || (Token.ofPunctuation? c).isSome

lemma isDelimiter_of_isBlank {c : Char} (h : isBlank c = true) : isDelimiter c = true := by
  simp [isDelimiter, h]

/-- A delimiter belongs neither to a word nor to a numeral. -/
lemma not_inside_of_isDelimiter {c : Char} (h : isDelimiter c = true) :
    c.isLower = false ∧ isNumeralChar c = false := by
  rw [isDelimiter, Bool.or_eq_true] at h
  rcases h with hblank | hpunctuation
  · simp only [isBlank, Bool.or_eq_true, beq_iff_eq] at hblank
    rcases hblank with ((rfl | rfl) | rfl) | rfl <;> exact ⟨rfl, rfl⟩
  · simp only [Token.ofPunctuation?] at hpunctuation
    split at hpunctuation
    case h_7 => cases hpunctuation
    all_goals exact ⟨rfl, rfl⟩

/-- A text that starts with a delimiter. -/
def Delimited (cs : List Char) : Prop := ∃ c rest, cs = c :: rest ∧ isDelimiter c = true

lemma delimited_blanks_append {bs : List Char} (h : ∀ c ∈ bs, isBlank c = true) {cs : List Char}
    (hcs : Delimited cs) : Delimited (bs ++ cs) := by
  cases bs with
  | nil => exact hcs
  | cons b bs => exact ⟨b, bs ++ cs, rfl, isDelimiter_of_isBlank (h b List.mem_cons_self)⟩

/-! ## Pieces of text -/

/-- The scanner after some characters. -/
abbrev run (s : Scanner) (cs : List Char) : Option Scanner := cs.foldlM step s

lemma run_cons {s s' : Scanner} {c : Char} (h : s.step c = some s') (cs : List Char) :
    s.run (c :: cs) = s'.run cs := by
  simp [run, h]

lemma run_append {s s' : Scanner} {cs : List Char} (h : s.run cs = some s') (ds : List Char) :
    s.run (cs ++ ds) = s'.run ds := by
  simp only [run] at h
  simp [run, List.foldlM_append, h]

/-- The scanner has read `tokens`, of which the last may still go on: a delimiter and the end of the
text end it. -/
structure Settled (s : Scanner) (tokens : List Token) : Prop where
  step_eq : ∀ c, isDelimiter c = true → s.step c = start? tokens c
  finish_eq : s.finish = some tokens.reverse

lemma settled_between (tokens : List Token) : Settled ⟨.between, tokens⟩ tokens :=
  ⟨fun _ _ => rfl, rfl⟩

/-- Behind a delimiter it does not matter whether a token had ended. -/
lemma Settled.run_eq {s : Scanner} {tokens : List Token} (h : s.Settled tokens) {cs : List Char}
    (hcs : Delimited cs) : s.run cs = run ⟨.between, tokens⟩ cs := by
  obtain ⟨c, rest, rfl, hc⟩ := hcs
  have hstep : s.step c = step ⟨.between, tokens⟩ c := h.step_eq c hc
  simp [run, hstep]

/-- The text adds tokens and ends between tokens. -/
def Closes (cs : List Char) (ts : List Token) : Prop :=
  ∀ before, run ⟨.between, before⟩ cs = some ⟨.between, ts.reverse ++ before⟩

/-- The text adds tokens, of which the last may still go on. -/
def Spells (cs : List Char) (ts : List Token) : Prop :=
  ∀ before, ∃ s, run ⟨.between, before⟩ cs = some s ∧ s.Settled (ts.reverse ++ before)

lemma Closes.spells {cs : List Char} {ts : List Token} (h : Closes cs ts) : Spells cs ts :=
  fun before => ⟨_, h before, settled_between _⟩

lemma Closes.append {cs ds : List Char} {ts us : List Token} (hc : Closes cs ts)
    (hd : Closes ds us) : Closes (cs ++ ds) (ts ++ us) := by
  intro before
  rw [run_append (hc before), hd, List.reverse_append, List.append_assoc]

lemma Closes.append_spells {cs ds : List Char} {ts us : List Token} (hc : Closes cs ts)
    (hd : Spells ds us) : Spells (cs ++ ds) (ts ++ us) := by
  intro before
  obtain ⟨s, hs, hsettled⟩ := hd (ts.reverse ++ before)
  refine ⟨s, ?_, ?_⟩
  · rw [run_append (hc before), hs]
  · rwa [List.reverse_append, List.append_assoc]

lemma Spells.append_closes {cs ds : List Char} {ts us : List Token} (hc : Spells cs ts)
    (hdelimited : Delimited ds) (hd : Closes ds us) : Closes (cs ++ ds) (ts ++ us) := by
  intro before
  obtain ⟨s, hs, hsettled⟩ := hc before
  rw [run_append hs, hsettled.run_eq hdelimited, hd, List.reverse_append, List.append_assoc]

/-- What is spelled is what is scanned. -/
lemma Spells.scan?_eq {text : String} {ts : List Token} (h : Spells text.toList ts) :
    Token.scan? text = some ts := by
  obtain ⟨s, hs, hsettled⟩ := h []
  simp only [run] at hs
  simp [Token.scan?, hs, hsettled.finish_eq]

/-! ## Tokens -/

lemma closes_punctuation {c : Char} {t : Token} (hblank : isBlank c = false)
    (h : Token.ofPunctuation? c = some t) : Closes [c] [t] := by
  intro before
  simp [run, step, start?, hblank, h]

lemma closes_comma : Closes [','] [.comma] := closes_punctuation rfl rfl

lemma closes_colon : Closes [':'] [.colon] := closes_punctuation rfl rfl

lemma closes_blanks {bs : List Char} (h : ∀ c ∈ bs, isBlank c = true) : Closes bs [] := by
  intro before
  induction bs with
  | nil => rfl
  | cons b bs ih =>
      obtain ⟨hb, hbs⟩ := List.forall_mem_cons.mp h
      have hstep : step ⟨.between, before⟩ b = some ⟨.between, before⟩ := by
        simp [step, start?, hb]
      rw [run_cons hstep]
      exact ih hbs

lemma spells_word {w : List Char} {t : Token} (h : Token.ofWord? w = some t) : Spells w [t] := by
  intro before
  have hrun : run ⟨.between, before⟩ w = some ⟨.word w.reverse, before⟩ := by
    simp only [Token.ofWord?] at h
    split_ifs at h with hnull htrue hfalse
    · rw [hnull]
      rfl
    · rw [htrue]
      rfl
    · rw [hfalse]
      rfl
  refine ⟨_, hrun, fun c hc => ?_, ?_⟩
  · simp [step, (not_inside_of_isDelimiter hc).1, h]
  · simp [finish, h]

lemma run_numeral {cs : List Char} (h : ∀ c ∈ cs, isNumeralChar c = true) (seen : List Char)
    (before : List Token) :
    run ⟨.numeral seen, before⟩ cs = some ⟨.numeral (cs.reverse ++ seen), before⟩ := by
  induction cs generalizing seen with
  | nil => rfl
  | cons c cs ih =>
      obtain ⟨hc, hcs⟩ := List.forall_mem_cons.mp h
      have hstep : step ⟨.numeral seen, before⟩ c = some ⟨.numeral (c :: seen), before⟩ := by
        simp [step, hc]
      rw [run_cons hstep, ih hcs, List.reverse_cons, List.append_assoc, List.singleton_append]

/-- A numeral starts with a digit or a minus sign. -/
lemma spells_numeral {c : Char} {cs : List Char} {n : Numeral}
    (hc : c.isDigit = true ∨ c = '-') (hcs : ∀ d ∈ cs, isNumeralChar d = true)
    (h : Numeral.ofChars? (c :: cs) = some n) : Spells (c :: cs) [.num n] := by
  intro before
  have hstart : step ⟨.between, before⟩ c = some ⟨.numeral [c], before⟩ := by
    have hinside : isNumeralChar c = true := by
      rcases hc with hc | rfl
      · simp [isNumeralChar, hc]
      · rfl
    have hnot : isDelimiter c ≠ true := fun hd => by
      rw [(not_inside_of_isDelimiter hd).2] at hinside
      cases hinside
    rw [isDelimiter, ne_eq, Bool.or_eq_true, not_or, Bool.not_eq_true, Option.not_isSome_iff_eq_none]
      at hnot
    have hquote : c ≠ '"' := by
      rintro rfl
      rcases hc with hc | hc
      · exact absurd hc (by decide)
      · exact absurd hc (by decide)
    simp [step, start?, hnot.1, hnot.2, hquote, hc]
  have hrun : run ⟨.between, before⟩ (c :: cs) = some ⟨.numeral (c :: cs).reverse, before⟩ := by
    rw [run_cons hstart, run_numeral hcs, List.reverse_cons]
  refine ⟨_, hrun, fun d hd => ?_, ?_⟩
  · simp [step, (not_inside_of_isDelimiter hd).2, h]
  · simp [finish, h]

lemma spells_int (n : Int) : Spells (Number.intNumeral n).chars [.num (Number.intNumeral n)] := by
  have hdigits : ∀ c ∈ Nat.toDigits 10 n.natAbs, c.isDigit = true := fun c hc =>
    Nat.isDigit_of_mem_toDigits (by decide) (by decide) hc
  have hinside : ∀ c ∈ Nat.toDigits 10 n.natAbs, isNumeralChar c = true := fun c hc => by
    simp [isNumeralChar, hdigits c hc]
  have hread := Numeral.ofChars?_intNumeral n
  rw [Numeral.chars_intNumeral] at hread ⊢
  split_ifs at hread ⊢ with hneg
  · exact spells_numeral (Or.inr rfl) hinside hread
  · rw [List.nil_append] at hread ⊢
    cases hchars : Nat.toDigits 10 n.natAbs with
    | nil => exact absurd hchars Nat.toDigits_ne_nil
    | cons c cs =>
        rw [hchars] at hread hdigits hinside
        exact spells_numeral (Or.inl (hdigits c List.mem_cons_self))
          (fun d hd => hinside d (List.mem_cons_of_mem c hd)) hread

/-- Inside quotes nothing that was escaped ends the string. -/
lemma run_escape (c : Char) (seen : List Char) (before : List Token) :
    run ⟨.quoted seen, before⟩ (Quoted.escape c)
      = some ⟨.quoted ((Quoted.escape c).reverse ++ seen), before⟩ := by
  rcases Quoted.escape_cases c with ⟨x, hx, _⟩ | ⟨hhex, _⟩ | ⟨hplain, hquote, hbackslash, _⟩
  · rw [hx]
    rfl
  · have hdigit : ∀ n, Quoted.hexDigit n ≠ '"' ∧ Quoted.hexDigit n ≠ '\\' := fun n =>
      ⟨Nat.digitChar_ne _ rfl, Nat.digitChar_ne _ rfl⟩
    rw [hhex]
    simp [run, step, hdigit]
  · rw [hplain]
    simp [run, step, hquote, hbackslash]

lemma run_flatMap_escape (cs seen : List Char) (before : List Token) :
    run ⟨.quoted seen, before⟩ (cs.flatMap Quoted.escape)
      = some ⟨.quoted ((cs.flatMap Quoted.escape).reverse ++ seen), before⟩ := by
  induction cs generalizing seen with
  | nil => rfl
  | cons c cs ih =>
      rw [List.flatMap_cons, run_append (run_escape c seen before), ih, List.reverse_append,
        List.append_assoc]

/-- **A string in quotes is one token**, whatever characters it has. -/
lemma closes_quote (s : String) : Closes (Quoted.quote s).toList [.str (some s)] := by
  intro before
  have hopen : step ⟨.between, before⟩ '"' = some ⟨.quoted [], before⟩ := rfl
  have hread := Quoted.ofQuoted?_escape s
  rw [Quoted.quote, String.toList_ofList, List.cons_append, run_cons hopen,
    run_append (run_flatMap_escape s.toList [] before)]
  simp [run, step, hread]

end Scanner

/-! ## Lists of texts -/

namespace Scanner

/-- Texts between commas. -/
lemma spells_intercalate {separator : List Char} (hdelimited : Delimited separator)
    (hseparator : Closes separator [.comma]) :
    ∀ {cs : List Char} {css : List (List Char)} {ts : List Token} {tss : List (List Token)},
      Spells cs ts → List.Forall₂ Spells css tss →
      Spells (separator.intercalate (cs :: css)) ([.comma].intercalate (ts :: tss))
  | cs, [], ts, [], hfirst, .nil => by
      rwa [List.intercalate_singleton, List.intercalate_singleton]
  | cs, ds :: css, ts, us :: tss, hfirst, .cons hnext hrest => by
      rw [List.intercalate_cons_cons, List.intercalate_cons_cons]
      exact (hfirst.append_closes hdelimited hseparator).append_spells
        (spells_intercalate hdelimited hseparator hnext hrest)

end Scanner

namespace Layout

/-- A layout that puts nothing but blanks between tokens. -/
structure IsBlank (l : Layout) : Prop where
  line : ∀ level, ∀ c ∈ (l.line level).toList, Json.isBlank c = true
  gap : ∀ c ∈ l.gap.toList, Json.isBlank c = true

lemma isBlank_compact : compact.IsBlank := by
  constructor <;> simp [compact]

lemma isBlank_indented : indented.IsBlank := by
  constructor
  · intro level c hc
    simp only [indented, String.toList_ofList, List.mem_cons, List.mem_replicate] at hc
    rcases hc with rfl | ⟨_, rfl⟩ <;> rfl
  · simp [indented, Json.isBlank]

/-- Both layouts in use are blank. -/
lemma isBlank_of_mem : ∀ layout ∈ [compact, indented], layout.IsBlank :=
  List.forall_mem_cons.mpr ⟨isBlank_compact, List.forall_mem_singleton.mpr isBlank_indented⟩

open Scanner

/-- **Texts between brackets**, whatever blanks the layout puts around them. -/
lemma closes_enclose {l : Layout} (hl : l.IsBlank) (level : Nat) {opening closing : String}
    {o c : Token} (hopen : Closes opening.toList [o]) (hclose : Closes closing.toList [c])
    (hdelimited : Delimited closing.toList) {texts : List String} {tss : List (List Token)}
    (h : List.Forall₂ (fun text ts => Spells text.toList ts) texts tss) :
    Closes (l.enclose level opening closing texts).toList
      (o :: ([.comma].intercalate tss ++ [c])) := by
  have hline : ∀ n, Closes (l.line n).toList [] := fun n => closes_blanks (hl.line n)
  cases h with
  | nil =>
      rw [enclose, String.toList_append]
      exact hopen.append hclose
  | @cons text ts texts tss hfirst hrest =>
      have hcomma : Closes ("," ++ l.line (level + 1)).toList [.comma] := by
        rw [String.toList_append]
        exact closes_comma.append (hline _)
      have hseparator : Delimited ("," ++ l.line (level + 1)).toList := by
        rw [String.toList_append]
        exact ⟨',', _, rfl, rfl⟩
      have hlist : List.Forall₂ Spells (texts.map String.toList) tss := by
        rwa [List.forall₂_map_left_iff]
      have hinside := spells_intercalate hseparator hcomma hfirst hlist
      have hend := (hline level).append hclose
      have hall := (hopen.append (hline (level + 1))).append
        (hinside.append_closes (delimited_blanks_append (hl.line level) hdelimited) hend)
      simpa only [enclose, String.toList_append, String.toList_intercalate, List.map_cons,
        List.append_assoc, List.append_nil, List.nil_append, List.singleton_append] using hall

end Layout

/-! ## The text of a value -/

lemma itemTexts_eq_map (l : Layout) (level : Nat) (items : List Json) :
    itemTexts l level items = items.map (textAt l level) := by
  induction items with
  | nil => rfl
  | cons v vs ih => rw [itemTexts, ih, List.map_cons]

/-- The text of a member. -/
def memberText (l : Layout) (level : Nat) (m : String × Json) : String :=
  Quoted.quote m.1 ++ ":" ++ l.gap ++ m.2.textAt l level

lemma memberTexts_eq_map (l : Layout) (level : Nat) (members : List (String × Json)) :
    memberTexts l level members = members.map (memberText l level) := by
  induction members with
  | nil => rfl
  | cons m ms ih => rw [memberTexts, ih, List.map_cons, memberText]

open Scanner

lemma spells_memberText {l : Layout} (hl : l.IsBlank) {level : Nat} {m : String × Json}
    (h : Spells (m.2.textAt l level).toList m.2.tree.tokens) :
    Spells (memberText l level m).toList (Tree.tokensOfMember (some m.1, m.2.tree)) := by
  have hkey := ((closes_quote m.1).append closes_colon).append (closes_blanks hl.gap)
  rw [memberText, String.toList_append, String.toList_append, String.toList_append]
  exact hkey.append_spells h

/-- **The text of a value spells out its syntax tree.**  Floats are left aside: what their digits
are is a matter of float arithmetic. -/
theorem spells_textAt {l : Layout} (hl : l.IsBlank) {v : Json} (h : v.isFloatFree = true)
    (level : Nat) : Spells (v.textAt l level).toList v.tree.tokens := by
  induction v generalizing level with
  | null => exact spells_word (by simp [textAt, Token.ofWord?])
  | bool b => cases b <;> exact spells_word (by simp [textAt, Token.ofWord?])
  | num n =>
      cases n with
      | int value inRange =>
          rw [textAt, String.toList_ofList]
          exact spells_int value
      | float bits => cases h
  | str s => exact (closes_quote s).spells
  | arr items ih =>
      rw [isFloatFree_arr] at h
      rw [textAt, itemTexts_eq_map, tree_arr, Tree.tokens_arr]
      have hopen : Closes "[".toList [.arrayOpen] := closes_punctuation rfl rfl
      have hclose : Closes "]".toList [.arrayClose] := closes_punctuation rfl rfl
      refine (Layout.closes_enclose hl level hopen hclose ⟨']', [], rfl, rfl⟩ ?_).spells
      rw [List.map_map, List.forall₂_map_left_iff, List.forall₂_map_right_iff, List.forall₂_same]
      exact fun v hv => ih v hv (h v hv) (level + 1)
  | obj members ih =>
      rw [isFloatFree_obj] at h
      rw [textAt, memberTexts_eq_map, tree_obj, Tree.tokens_obj]
      have hopen : Closes "\x7b".toList [.objectOpen] := closes_punctuation rfl rfl
      have hclose : Closes "\x7d".toList [.objectClose] := closes_punctuation rfl rfl
      refine (Layout.closes_enclose hl level hopen hclose ⟨'\x7d', [], rfl, rfl⟩ ?_).spells
      rw [List.map_map, List.forall₂_map_left_iff, List.forall₂_map_right_iff, List.forall₂_same]
      exact fun m hm => spells_memberText hl (ih m hm (h m hm) (level + 1))

/-- **The text of a value is read as its syntax tree**, in every layout that adds blanks only. -/
theorem ofText?_text {l : Layout} (hl : l.IsBlank) {v : Json} (h : v.isFloatFree = true) :
    Tree.ofText? (v.text l) = some v.tree := by
  have hscan : Token.scan? (v.text l) = some v.tree.tokens := (spells_textAt hl h 0).scan?_eq
  rw [Tree.ofText?, hscan, Option.bind_some, Tree.ofTokens?_tokens]

end Microstep.Json
