import Microstep.Proofs.Json.Records

/-!
# Types with several forms

A type with several forms tries them one after the other, and the first that fits counts.  Whether
the order matters depends on the forms.  It does not if no tree is read in two of them
(`Reader.Excludes`): then what is read is what the one form that fits reads
(`Reader.choice_eq_ok_iff`), in whatever order they are tried (`Reader.choice_perm`).

Before any form is tried the tree must make sense as a whole (`Tree.Sound`).  This takes nothing
away from forms that look at all of it (`Reader.Thorough`), as records do that refuse unknown
members (`Shape.IsRecord.thorough`).  Two such records exclude each other if the first cannot do
without a field that the second does not know, and is longer as an array
(`Shape.IsRecord.excludes`).
-/

namespace Microstep.Json

/-! ## Trees that make sense -/

lemma exists_mapM_eq_ok_iff {ε α β : Type} {f : α → Except ε β} {l : List α} :
    (∃ r, l.mapM f = .ok r) ↔ ∀ a ∈ l, ∃ b, f a = .ok b := by
  induction l with
  | nil => simpa using ⟨[], rfl⟩
  | cons a l ih =>
      rw [List.forall_mem_cons, ← ih]
      simp only [List.mapM_cons, bind_eq_ok_iff]
      constructor
      · rintro ⟨r, b, hb, bs, hbs, -⟩
        exact ⟨⟨b, hb⟩, bs, hbs⟩
      · rintro ⟨⟨b, hb⟩, bs, hbs⟩
        exact ⟨b :: bs, b, hb, bs, hbs, rfl⟩

lemma literal_eq_ok_iff {o : Option String} {s : String} : literal o = .ok s ↔ o = some s := by
  cases o <;> simp [literal]

namespace Tree

/-- **Whether a tree makes sense as a whole**, with `d` levels left. -/
def Sound (d : Nat) (t : Tree) : Prop := ∃ v, t.value d = .ok v

lemma sound_null (d : Nat) : Sound d .null := ⟨.null, by rw [value]⟩

lemma sound_bool (d : Nat) (b : Bool) : Sound d (.bool b) := ⟨.bool b, by rw [value]⟩

lemma sound_str (d : Nat) (s : String) : Sound d (.str (some s)) := ⟨.str s, by rw [value]; rfl⟩

lemma sound_num {n : Numeral} {v : Number} (h : n.value? = some v) (d : Nat) : Sound d (.num n) :=
  ⟨.num v, by rw [value, h]⟩

lemma sound_arr_iff {d : Nat} {items : List Tree} :
    Sound (d + 1) (.arr items) ↔ ∀ t ∈ items, t.Sound d := by
  simp only [Sound]
  rw [← exists_mapM_eq_ok_iff]
  simp only [value, bind_eq_ok_iff]
  constructor
  · rintro ⟨v, values, hvalues, -⟩
    exact ⟨values, hvalues⟩
  · rintro ⟨values, hvalues⟩
    exact ⟨_, values, hvalues, rfl⟩

/-- A member makes sense if its key is whole and its value makes sense. -/
lemma sound_member_iff {d : Nat} {m : Option String × Tree} :
    (∃ n, (do return (← literal m.1, ← value d m.2) : Except ReadFault (String × Json)) = .ok n) ↔
      m.1.isSome = true ∧ m.2.Sound d := by
  obtain ⟨key, t⟩ := m
  simp only [bind_eq_ok_iff, literal_eq_ok_iff, Sound, Option.isSome_iff_exists]
  constructor
  · rintro ⟨n, key, hkey, v, hv, -⟩
    exact ⟨⟨key, hkey⟩, v, hv⟩
  · rintro ⟨⟨key, hkey⟩, v, hv⟩
    exact ⟨(key, v), key, hkey, v, hv, rfl⟩

lemma sound_obj_iff {d : Nat} {members : List (Option String × Tree)} :
    Sound (d + 1) (.obj members) ↔ ∀ m ∈ members, m.1.isSome = true ∧ m.2.Sound d := by
  simp only [← sound_member_iff]
  rw [← exists_mapM_eq_ok_iff]
  simp only [Sound, value, bind_eq_ok_iff]
  constructor
  · rintro ⟨v, values, hvalues, -⟩
    exact ⟨values, hvalues⟩
  · rintro ⟨values, hvalues⟩
    exact ⟨_, values, hvalues, rfl⟩

end Tree

namespace Reader

variable {α β γ : Type}

/-! ## Readers that look at the whole tree -/

/-- **Whatever is read makes sense as a whole.** -/
def Thorough (r : Reader α) : Prop := ∀ d t a, r d t = .ok a → t.Sound d

lemma Thorough.map {r : Reader α} (h : r.Thorough) (f : α → β) : (r.map f).Thorough := by
  intro d t b hb
  obtain ⟨a, ha, -⟩ := map_eq_ok_iff.mp hb
  exact h d t a ha

lemma thorough_bool : bool.Thorough := by
  intro d t b hb
  cases t with
  | bool b => exact Tree.sound_bool d b
  | _ => simp [bool] at hb

lemma thorough_string : string.Thorough := by
  intro d t s hs
  cases t with
  | str o =>
      rw [string, literal_eq_ok_iff] at hs
      exact hs ▸ Tree.sound_str d s
  | _ => simp [string] at hs

lemma thorough_integer (low high : Int) : (integer low high).Thorough := by
  intro d t i hi
  cases t with
  | num n =>
      cases hn : n.value? with
      | none => simp [integer, hn] at hi
      | some v => exact Tree.sound_num hn d
  | _ => simp [integer] at hi

lemma thorough_uint32 : uint32.Thorough := (thorough_integer _ _).map _

lemma Thorough.optional {r : Reader α} (h : r.Thorough) : (optional r).Thorough := by
  intro d t o ho
  cases t with
  | null => exact Tree.sound_null d
  | _ =>
      obtain ⟨a, ha, -⟩ := map_eq_ok_iff.mp ho
      exact h d _ a ha

/-- A type with several forms looks at the whole tree before it tries any. -/
lemma thorough_choice (type : String) (forms : List (Reader α)) : (choice type forms).Thorough := by
  intro d t a ha
  obtain ⟨v, hv, -⟩ := bind_eq_ok_iff.mp ha
  exact ⟨v, hv⟩

/-! ## Forms that exclude each other -/

/-- **No tree is read by both readers**, however many levels are left. -/
def Excludes (r : Reader α) (r' : Reader β) : Prop :=
  ∀ d d' t a b, r d t = .ok a → r' d' t ≠ .ok b

lemma Excludes.symm {r : Reader α} {r' : Reader β} (h : r.Excludes r') : r'.Excludes r :=
  fun d d' t b a hb ha => h d' d t a b ha hb

lemma Excludes.map {r : Reader α} {r' : Reader β} (h : r.Excludes r') (f : α → γ) (g : β → γ) :
    (r.map f).Excludes (r'.map g) := by
  intro d d' t c c' hc hc'
  obtain ⟨a, ha, -⟩ := map_eq_ok_iff.mp hc
  obtain ⟨b, hb, -⟩ := map_eq_ok_iff.mp hc'
  exact h d d' t a b ha hb

lemma isOk_iff_exists {ε : Type} {x : Except ε α} : x.isOk = true ↔ ∃ a, x = .ok a := by
  cases x <;> simp [Except.isOk, Except.toBool]

lemma Excludes.isOk_and {r : Reader α} {r' : Reader β} (h : r.Excludes r') (d : Nat) (t : Tree) :
    ((r d t).isOk && (r' d t).isOk) = false := by
  rw [← Bool.not_eq_true, Bool.and_eq_true, isOk_iff_exists, isOk_iff_exists]
  rintro ⟨⟨a, ha⟩, b, hb⟩
  exact h d d t a b ha hb

lemma toOption_eq_some_iff {ε : Type} {x : Except ε α} {a : α} :
    x.toOption = some a ↔ x = .ok a := by
  cases x <;> simp [Except.toOption]

/-- If no two elements give something, the one that does is found. -/
lemma findSome?_eq_some_iff_of_pairwise {f : α → Option β} {l : List α} {b : β}
    (h : l.Pairwise fun x y => f x = none ∨ f y = none) :
    l.findSome? f = some b ↔ ∃ x ∈ l, f x = some b := by
  induction l with
  | nil => simp
  | cons x l ih =>
      obtain ⟨hx, hl⟩ := List.pairwise_cons.mp h
      rw [List.findSome?_cons, List.exists_mem_cons_iff]
      cases hfx : f x with
      | none => simpa using ih hl
      | some c =>
          have hrest : ∀ y ∈ l, f y = none := fun y hy =>
            (hx y hy).resolve_left (by simp [hfx])
          refine ⟨Or.inl, ?_⟩
          rintro (hc | ⟨y, hy, hyb⟩)
          · exact hc
          · rw [hrest y hy] at hyb
            cases hyb

section

variable {type : String} {forms : List (Reader α)}

lemma findSome?_eq_some_iff_of_excludes (hexcludes : forms.Pairwise Excludes) {d : Nat} {t : Tree}
    {a : α} :
    forms.findSome? (fun r => (r d t).toOption) = some a ↔ ∃ r ∈ forms, r d t = .ok a := by
  have hone : forms.Pairwise fun r r' => (r d t).toOption = none ∨ (r' d t).toOption = none := by
    refine hexcludes.imp fun {r r'} h => ?_
    cases hr : r d t with
    | error e => exact Or.inl rfl
    | ok a =>
        cases hr' : r' d t with
        | error e => exact Or.inr rfl
        | ok b => exact absurd hr' (h d d t a b hr)
  simp only [findSome?_eq_some_iff_of_pairwise hone, toOption_eq_some_iff]

/-- **Of forms that exclude each other, the one that fits is read**, if the tree makes sense. -/
lemma choice_eq_ok_iff (hexcludes : forms.Pairwise Excludes) {d : Nat} {t : Tree} {a : α} :
    choice type forms d t = .ok a ↔ t.Sound d ∧ ∃ r ∈ forms, r d t = .ok a := by
  rw [← findSome?_eq_some_iff_of_excludes hexcludes, choice, bind_eq_ok_iff]
  constructor
  · rintro ⟨v, hv, h⟩
    split at h
    · next hfind =>
        cases h
        exact ⟨⟨v, hv⟩, hfind⟩
    · cases h
  · rintro ⟨⟨v, hv⟩, hfind⟩
    refine ⟨v, hv, ?_⟩
    rw [hfind]

lemma choice_eq_ok_iff_of_thorough (hthorough : ∀ r ∈ forms, r.Thorough)
    (hexcludes : forms.Pairwise Excludes) {d : Nat} {t : Tree} {a : α} :
    choice type forms d t = .ok a ↔ ∃ r ∈ forms, r d t = .ok a := by
  rw [choice_eq_ok_iff hexcludes, and_iff_right_iff_imp]
  rintro ⟨r, hr, hra⟩
  exact hthorough r hr d t a hra

/-- **The order of forms that exclude each other does not matter.** -/
lemma choice_perm (hexcludes : forms.Pairwise Excludes) {forms' : List (Reader α)}
    (hperm : forms.Perm forms') : choice type forms = choice type forms' := by
  have hexcludes' : forms'.Pairwise Excludes := hperm.pairwise hexcludes Excludes.symm
  funext d t
  have hfind : forms.findSome? (fun r => (r d t).toOption)
      = forms'.findSome? fun r => (r d t).toOption := by
    refine Option.ext fun a => ?_
    rw [findSome?_eq_some_iff_of_excludes hexcludes,
      findSome?_eq_some_iff_of_excludes hexcludes']
    simp only [hperm.mem_iff]
  rw [choice, choice, hfind]

end

end Reader

/-! ## Records that know only their own fields -/

namespace Shape

variable {F F' α β : Type} [DecidableEq F] [DecidableEq F'] {s : Shape F} {s' : Shape F'}
  {made : s.Slots → α → Prop} {made' : s'.Slots → β → Prop} {r : Reader α} {r' : Reader β}

omit [DecidableEq F'] in
/-- **A record that refuses unknown members looks at all of its tree.** -/
lemma IsRecord.thorough (h : s.IsRecord made r) (hclosed : s.closed = true)
    (hread : ∀ f, (s.read f).Thorough) : r.Thorough := by
  intro d t a ha
  obtain ⟨n, rfl, hfits, slots, hhold, -⟩ := h.eq_ok_iff.mp ha
  have hpart : ∀ f u, s.part? f t = some u → u.Sound n := fun f u hu => by
    obtain ⟨v, hv, -⟩ := (hhold f).2 u hu
    exact hread f n u v hv
  cases t with
  | obj members =>
      refine Tree.sound_obj_iff.mpr fun m hm => ?_
      obtain ⟨key, hkey, hfield⟩ := hfits.1 m hm
      obtain ⟨f, hf⟩ := hfield hclosed
      have hof : s.fieldOf? m = some f := by rwa [fieldOf?, hkey]
      refine ⟨by rw [hkey]; rfl, hpart f m.2 ?_⟩
      exact (member?_eq_some_iff hfits.2).mpr ⟨m, hm, hof, rfl⟩
  | arr items =>
      refine Tree.sound_arr_iff.mpr fun u hu => ?_
      obtain ⟨i, hi⟩ := List.mem_iff_getElem?.mp hu
      have hlen : i < s.fields.length :=
        ((List.getElem?_eq_some_iff.mp hi).1).trans_le hfits
      refine hpart s.fields[i] u ?_
      rw [part?, lookup_zip_eq_getElem? h.nodup (List.getElem?_eq_getElem hlen), hi]
  | _ => exact hfits.elim

/-- **When two records exclude each other**: the first cannot do without a field that the second
does not know, and which as an element of an array stands behind all fields of the second. -/
lemma IsRecord.excludes (h : s.IsRecord made r) (h' : s'.IsRecord made' r')
    (hclosed : s'.closed = true) {f : F} {i : Nat} (hi : s.fields[i]? = some f)
    (hrequired : ∀ slots a, made slots a → ∃ v, slots f = some v)
    (hkey : s'.field? (s.key f) = none) (hlen : s'.fields.length ≤ i) : r.Excludes r' := by
  intro d d' t a b ha hb
  obtain ⟨n, rfl, hfits, slots, hhold, hmade⟩ := h.eq_ok_iff.mp ha
  obtain ⟨n', rfl, hfits', -⟩ := h'.eq_ok_iff.mp hb
  obtain ⟨v, hv⟩ := hrequired slots a hmade
  obtain ⟨u, hu, -⟩ := hhold.exists_part hv
  cases t with
  | obj members =>
      obtain ⟨f', hf'⟩ := admits_some_iff.mp (hfits'.1 _ (mem_of_member? hu)) hclosed
      rw [hkey] at hf'
      cases hf'
  | arr items =>
      rw [part?, lookup_zip_eq_getElem? h.nodup hi] at hu
      have hlt : i < items.length := (List.getElem?_eq_some_iff.mp hu).1
      have hle : items.length ≤ s'.fields.length := hfits'
      omega
  | _ => exact hfits.elim

end Shape

end Microstep.Json
