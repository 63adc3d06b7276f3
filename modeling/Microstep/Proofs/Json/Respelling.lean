import Microstep.Proofs.Json.Levels
import Mathlib.Logic.Relation

/-!
# Other spellings of a record

One record can be spelled in many ways.  The members of its object may change places, members may be
added that it does not know, the array of its fields may stand for the object, and each of its parts
may be spelled anew itself (`Shape.Respells`).  What is read stays the same, provided that there are
levels enough for the new spelling (`Reader.Keeps`).

Every rule about `Reader.Keeps` is about one change of one tree, and asks of the parts of the tree
only that their own readers keep what was read.  So the rules can be chained from a change deep
inside a tree outwards, and then from one change to many.  What cannot be read on the other hand
spoils all that it stands in (`Reader.not_takes_list`, `Shape.IsRecord.not_takes_of_inside`).
-/

namespace Microstep.Json

/-! ## Changes of a tree -/

namespace Tree

/-- Whether a tree makes sense as a whole, levels apart. -/
def Readable (t : Tree) : Prop := ∃ d, t.Sound d

lemma readable_obj_iff {members : List (Option String × Tree)} :
    Readable (.obj members) ↔ ∀ m ∈ members, m.1.isSome = true ∧ m.2.Readable := by
  constructor
  · rintro ⟨d, hd⟩ m hm
    obtain _ | n := d
    · obtain ⟨v, hv⟩ := hd
      simp [value] at hv
    · obtain ⟨hkey, hsound⟩ := sound_obj_iff.mp hd m hm
      exact ⟨hkey, n, hsound⟩
  · intro h
    refine ⟨memberDepth members + 1, sound_obj_iff.mpr fun m hm => ?_⟩
    obtain ⟨hkey, d, hd⟩ := h m hm
    exact ⟨hkey, hd.of_enough (Or.inr (le_memberDepth hm))⟩

lemma readable_obj_append_cons_iff {front back : List (Option String × Tree)}
    {m : Option String × Tree} :
    Readable (.obj (front ++ m :: back)) ↔
      (m.1.isSome = true ∧ m.2.Readable) ∧ Readable (.obj (front ++ back)) := by
  simp only [readable_obj_iff, List.forall_mem_append, List.forall_mem_cons]
  exact and_left_comm

/-- One element of an array is changed. -/
inductive Listwise (R : Tree → Tree → Prop) : Tree → Tree → Prop
  | intro (front back : List Tree) {t t' : Tree} (h : R t t') :
    Listwise R (.arr (front ++ t :: back)) (.arr (front ++ t' :: back))

lemma Listwise.mono {R R' : Tree → Tree → Prop} (hR : ∀ t t', R t t' → R' t t') {t t' : Tree}
    (h : Listwise R t t') : Listwise R' t t' := by
  obtain ⟨front, back, h⟩ := h
  exact ⟨front, back, hR _ _ h⟩

end Tree

namespace Shape

variable {F : Type} {s : Shape F} {t t' : Tree}

/-- One more member, with the value `u`, that the record does not know. -/
inductive Adds (s : Shape F) (u : Tree) : Tree → Tree → Prop
  | intro (front back : List (Option String × Tree)) {key : String} (hkey : s.field? key = none) :
    Adds s u (.obj (front ++ back)) (.obj (front ++ (some key, u) :: back))

/-- **The members of an object in another order, or one more** that the record does not know and
does not mind. -/
inductive Rearranges (s : Shape F) : Tree → Tree → Prop
  | permute {members members' : List (Option String × Tree)} (h : members.Perm members') :
    Rearranges s (.obj members) (.obj members')
  | extend {t t' u : Tree} (hopen : s.closed = false) (hu : u.Readable) (h : s.Adds u t t') :
    Rearranges s t t'

/-- **The array of the fields in place of an object**, with stand-ins for absent ones. -/
inductive Unkeys [DecidableEq F] (s : Shape F) (absent : F → Option Tree) : Tree → Tree → Prop
  | intro {members : List (Option String × Tree)} {items : List Tree}
    (h : items.map some = s.fields.map fun f => (s.member? f members).or (absent f)) :
    Unkeys s absent (.obj members) (.arr items)

/-- One part of a record is changed, the one for the field `f` as `R f` tells. -/
inductive Inside (s : Shape F) (R : F → Tree → Tree → Prop) : Tree → Tree → Prop
  | member (front back : List (Option String × Tree)) {key : String} {f : F} {t t' : Tree}
    (hkey : s.field? key = some f) (h : R f t t') :
    Inside s R (.obj (front ++ (some key, t) :: back)) (.obj (front ++ (some key, t') :: back))
  | item (front back : List Tree) {f : F} {t t' : Tree} (hf : s.fields[front.length]? = some f)
    (h : R f t t') :
    Inside s R (.arr (front ++ t :: back)) (.arr (front ++ t' :: back))

/-- **Another spelling of a record**, one change away. -/
def Respells [DecidableEq F] (s : Shape F) (absent : F → Option Tree)
    (R : F → Tree → Tree → Prop) (t t' : Tree) : Prop :=
  s.Rearranges t t' ∨ s.Unkeys absent t t' ∨ s.Inside R t t'

lemma Inside.mono {R R' : F → Tree → Tree → Prop} (hR : ∀ f t t', R f t t' → R' f t t')
    (h : s.Inside R t t') : s.Inside R' t t' := by
  cases h with
  | member front back hkey h => exact .member front back hkey (hR _ _ _ h)
  | item front back hf h => exact .item front back hf (hR _ _ _ h)

lemma field?_congr {s' : Shape F} (hfields : s'.fields = s.fields) (hkey : s'.key = s.key) :
    s'.field? = s.field? := by
  funext key
  rw [field?, field?, hfields, hkey]

lemma Inside.of_keys {s' : Shape F} {R : F → Tree → Tree → Prop} (hfields : s'.fields = s.fields)
    (hkey : s'.key = s.key) (h : s.Inside R t t') : s'.Inside R t t' := by
  cases h with
  | member front back h hR =>
      exact .member front back ((congrFun (field?_congr hfields hkey) _).trans h) hR
  | item front back h hR => exact .item front back (hfields ▸ h) hR

/-- Only the keys of a shape matter to a change. -/
lemma Respells.of_keys [DecidableEq F] {s' : Shape F} {absent : F → Option Tree}
    {R : F → Tree → Tree → Prop} (hfields : s'.fields = s.fields) (hkey : s'.key = s.key)
    (hclosed : s'.closed = s.closed) (h : s.Respells absent R t t') :
    s'.Respells absent R t t' := by
  have hfield : s'.field? = s.field? := field?_congr hfields hkey
  rcases h with h | h | h
  · refine Or.inl ?_
    cases h with
    | permute h => exact .permute h
    | extend hopen hu h =>
        obtain ⟨front, back, h⟩ := h
        exact .extend (hclosed.trans hopen) hu ⟨front, back, (congrFun hfield _).trans h⟩
  · obtain ⟨h⟩ := h
    have hof : s'.fieldOf? = s.fieldOf? := by
      funext m
      rw [fieldOf?, fieldOf?, hfield]
    have hmember : s'.member? = s.member? := by
      funext f members
      simp only [member?, hof]
    refine Or.inr (Or.inl ⟨?_⟩)
    rw [h, hfields, hmember]
  · exact Or.inr (Or.inr (h.of_keys hfields hkey))

/-- A change of a part can be taken back. -/
lemma Inside.symm {R : F → Tree → Tree → Prop} (h : s.Inside R t t') :
    s.Inside (fun f u u' => R f u' u) t' t := by
  cases h with
  | member front back hkey h => exact .member front back hkey h
  | item front back hf h => exact .item front back hf h

lemma Adds.exists_obj {u : Tree} (h : s.Adds u t t') :
    ∃ members members', t = .obj members ∧ t' = .obj members' ∧ members ⊆ members'
      ∧ ∃ key, s.field? key = none ∧ (some key, u) ∈ members' := by
  obtain ⟨front, back, hkey⟩ := h
  exact ⟨_, _, rfl, rfl, by simp, _, hkey, by simp⟩

/-- Rearranging turns an object that makes sense into another one. -/
lemma Rearranges.exists_obj (h : s.Rearranges t t') :
    ∃ members members', t = .obj members ∧ t' = .obj members'
      ∧ (t.Readable → t'.Readable) := by
  cases h with
  | permute h =>
      refine ⟨_, _, rfl, rfl, fun hreadable => Tree.readable_obj_iff.mpr fun m hm => ?_⟩
      exact Tree.readable_obj_iff.mp hreadable m (h.mem_iff.mpr hm)
  | extend hopen hu h =>
      obtain ⟨front, back, hkey⟩ := h
      refine ⟨_, _, rfl, rfl, fun hreadable => ?_⟩
      exact Tree.readable_obj_append_cons_iff.mpr ⟨⟨rfl, hu⟩, hreadable⟩

/-! ## Parts of a changed tree -/

variable [DecidableEq F]

lemma member?_append (f : F) (front back : List (Option String × Tree)) :
    s.member? f (front ++ back) = (s.member? f front).or (s.member? f back) := by
  rw [member?, List.find?_append]
  cases hfront : front.find? fun m => s.fieldOf? m = some f <;> simp [member?, hfront]

/-- Rearranging keeps the form and the parts. -/
lemma Rearranges.fits_and_part? (h : s.Rearranges t t') (hfits : s.Fits t) :
    s.Fits t' ∧ ∀ f, s.part? f t' = s.part? f t := by
  cases h with
  | @permute members members' hperm =>
      obtain ⟨hadmits, hnodup⟩ := hfits
      have hnodup' : (members'.filterMap s.fieldOf?).Nodup :=
        (hperm.filterMap s.fieldOf?).nodup_iff.mp hnodup
      refine ⟨⟨fun m hm => hadmits m (hperm.mem_iff.mpr hm), hnodup'⟩, fun f => ?_⟩
      refine Option.ext fun u => ?_
      rw [part?, part?, member?_eq_some_iff hnodup, member?_eq_some_iff hnodup']
      simp only [hperm.mem_iff]
  | @extend _ _ u hopen hu h =>
      obtain ⟨front, back, hkey⟩ := h
      rename_i key
      have hof : s.fieldOf? (some key, u) = none := hkey
      obtain ⟨hadmits, hnodup⟩ := hfits
      refine ⟨⟨?_, ?_⟩, fun f => ?_⟩
      · intro m hm
        rcases List.mem_append.mp hm with hm | hm
        · exact hadmits m (List.mem_append_left _ hm)
        · rcases List.mem_cons.mp hm with rfl | hm
          · exact admits_some_iff.mpr fun hclosed => by simp [hopen] at hclosed
          · exact hadmits m (List.mem_append_right _ hm)
      · rwa [List.filterMap_append, List.filterMap_cons_none hof, ← List.filterMap_append]
      · rw [part?, part?, member?_append, member?_cons, hof, if_neg (Option.some_ne_none f).symm,
          ← member?_append]

/-- A change inside keeps the form and all parts but one. -/
lemma Inside.fits_and_part? {R : F → Tree → Tree → Prop} (h : s.Inside R t t')
    (hfields : s.fields.Nodup) (hfits : s.Fits t) :
    s.Fits t' ∧ ∃ f u u', R f u u' ∧ s.part? f t = some u ∧ s.part? f t' = some u'
      ∧ ∀ g, g ≠ f → s.part? g t' = s.part? g t := by
  cases h with
  | @member front back key f u u' hkey h =>
      have hof : ∀ w, s.fieldOf? (some key, w) = some f := fun _ => hkey
      have hmap : ∀ w, (front ++ (some key, w) :: back).filterMap s.fieldOf?
          = front.filterMap s.fieldOf? ++ f :: back.filterMap s.fieldOf? := fun w => by
        rw [List.filterMap_append, List.filterMap_cons_some (hof w)]
      obtain ⟨hadmits, hnodup⟩ := hfits
      have hnodup' : ((front ++ (some key, u') :: back).filterMap s.fieldOf?).Nodup := by
        rwa [hmap, ← hmap u]
      have hhead : s.Admits (some key, u') := admits_some_iff.mpr fun _ => ⟨f, hkey⟩
      refine ⟨⟨by grind, hnodup'⟩, f, u, u', h, ?_, ?_, fun g hg => ?_⟩
      · exact (member?_eq_some_iff hnodup).mpr ⟨(some key, u), by simp, hof u, rfl⟩
      · exact (member?_eq_some_iff hnodup').mpr ⟨(some key, u'), by simp, hof u', rfl⟩
      · have hskip : ∀ w, s.fieldOf? (some key, w) ≠ some g := fun w hw =>
          hg (Option.some.inj (hw.symm.trans (hof w)))
        simp only [part?, member?_append, member?_cons, if_neg (hskip _)]
  | @item front back f u u' hf h =>
      refine ⟨by simpa [Fits] using hfits, f, u, u', h, ?_, ?_, fun g hg => ?_⟩
      · rw [part?, lookup_zip_eq_getElem? hfields hf]
        simp
      · rw [part?, lookup_zip_eq_getElem? hfields hf]
        simp
      · by_cases hmem : g ∈ s.fields
        · obtain ⟨i, hi⟩ := List.mem_iff_getElem?.mp hmem
          have hne : i ≠ front.length := fun h => hg (Option.some.inj (hi.symm.trans (h ▸ hf)))
          rw [part?, part?, lookup_zip_eq_getElem? hfields hi, lookup_zip_eq_getElem? hfields hi]
          grind
        · rw [part?, part?, lookup_zip_of_notMem hmem, lookup_zip_of_notMem hmem]

/-- An array of the fields has the parts of the object, and stand-ins. -/
lemma Unkeys.fits_and_part? {absent : F → Option Tree} (h : s.Unkeys absent t t')
    (hfields : s.fields.Nodup) (hcomplete : ∀ f, f ∈ s.fields) :
    s.Fits t' ∧ ∀ f, s.part? f t' = (s.part? f t).or (absent f) := by
  obtain ⟨h⟩ := h
  rename_i members items
  have hlength : items.length = s.fields.length := by simpa using congrArg List.length h
  refine ⟨hlength.le, fun f => ?_⟩
  obtain ⟨i, hi⟩ := List.mem_iff_getElem?.mp (hcomplete f)
  have hget : (items.map some)[i]? = some ((s.member? f members).or (absent f)) := by
    rw [h, List.getElem?_map, hi, Option.map_some]
  have harray : s.part? f (.arr items) = items[i]? := lookup_zip_eq_getElem? hfields hi items
  rw [List.getElem?_map, Option.map_eq_some_iff] at hget
  obtain ⟨u, hu, hpart⟩ := hget
  rw [harray, hu, hpart, part?]

end Shape

/-! ## What a change does to a reader -/

namespace Reader

variable {α β : Type} {r : Reader α} {t t' : Tree}

/-- **What is read from `t` is read from `t'` too**, with levels enough. -/
def Keeps (r : Reader α) (t t' : Tree) : Prop := ∀ d a, r d t = .ok a → ∃ d', r d' t' = .ok a

/-- **Something is read from the tree**, with levels enough. -/
def Takes (r : Reader α) (t : Tree) : Prop := ∃ d a, r d t = .ok a

/-- A steady reader keeps what it read where the new tree is not too deep. -/
lemma Keeps.read_of_depth_le (h : r.Keeps t t') (hr : r.Steady) {d : Nat} {a : α}
    (ha : r d t = .ok a) {d' : Nat} (hdepth : t'.depth ≤ d') : r d' t' = .ok a := by
  obtain ⟨e, he⟩ := h d a ha
  exact hr t' e d' a he (Or.inr hdepth)

/-- From one change to many. -/
lemma keeps_of_reflTransGen {R : Tree → Tree → Prop} (hR : ∀ t t', R t t' → r.Keeps t t')
    (h : Relation.ReflTransGen R t t') : r.Keeps t t' := by
  induction h with
  | refl => exact fun d a ha => ⟨d, ha⟩
  | tail _ hstep ih =>
      intro d a ha
      obtain ⟨d', hd'⟩ := ih d a ha
      exact hR _ _ hstep d' a hd'

lemma Keeps.map (h : r.Keeps t t') (f : α → β) : (r.map f).Keeps t t' := by
  intro d b hb
  obtain ⟨a, ha, rfl⟩ := map_eq_ok_iff.mp hb
  obtain ⟨d', hd'⟩ := h d a ha
  exact ⟨d', map_eq_ok_iff.mpr ⟨a, hd', rfl⟩⟩

lemma takes_map_iff {f : α → β} : (r.map f).Takes t ↔ r.Takes t := by
  constructor
  · rintro ⟨d, b, hb⟩
    obtain ⟨a, ha, -⟩ := map_eq_ok_iff.mp hb
    exact ⟨d, a, ha⟩
  · rintro ⟨d, a, ha⟩
    exact ⟨d, f a, map_eq_ok_iff.mpr ⟨a, ha, rfl⟩⟩

lemma optional_of_ne_null (ht : t ≠ .null) (d : Nat) : optional r d t = r.map some d t := by
  cases t with
  | null => exact absurd rfl ht
  | _ => rfl

lemma Keeps.optional (h : r.Keeps t t') (ht : t ≠ .null) (ht' : t' ≠ .null) :
    (optional r).Keeps t t' := by
  intro d o ho
  rw [optional_of_ne_null ht] at ho
  obtain ⟨d', hd'⟩ := h.map some d o ho
  exact ⟨d', by rw [optional_of_ne_null ht', hd']⟩

/-- Reading an array whose elements stand in front of, at and behind a place. -/
lemma mapM_append_cons_eq_ok_iff {ε γ : Type} {f : γ → Except ε β} {front back : List γ} {c : γ}
    {bs : List β} :
    (front ++ c :: back).mapM f = .ok bs ↔
      ∃ fs, front.mapM f = .ok fs ∧ ∃ b, f c = .ok b ∧ ∃ gs, back.mapM f = .ok gs
        ∧ fs ++ b :: gs = bs := by
  simp only [List.mapM_append, List.mapM_cons, bind_eq_ok_iff]
  constructor
  · rintro ⟨fs, hfs, _, ⟨b, hb, gs, hgs, ⟨⟩⟩, ⟨⟩⟩
    exact ⟨fs, hfs, b, hb, gs, hgs, rfl⟩
  · rintro ⟨fs, hfs, b, hb, gs, hgs, rfl⟩
    exact ⟨fs, hfs, _, ⟨b, hb, gs, hgs, rfl⟩, rfl⟩

lemma keeps_list (hr : r.Steady) (h : Tree.Listwise r.Keeps t t') : (list r).Keeps t t' := by
  intro d as has
  obtain ⟨front, back, h⟩ := h
  rename_i u u'
  obtain ⟨n, items, rfl, hitems, has⟩ := list_eq_ok_iff.mp has
  cases hitems
  obtain ⟨fs, hfs, b, hb, gs, hgs, rfl⟩ := mapM_append_cons_eq_ok_iff.mp has
  obtain ⟨n', hn'⟩ := h n b hb
  -- The new element may ask for more levels than the old one left.
  have hmore : ∀ {items : List Tree} {as : List α}, items.mapM (r n) = .ok as →
      items.mapM (r (max n n')) = .ok as :=
    mapM_eq_ok_of_forall fun u _ a ha => hr u n _ a ha (Or.inl (le_max_left n n'))
  refine ⟨max n n' + 1, list_eq_ok_iff.mpr ⟨max n n', _, rfl, rfl, ?_⟩⟩
  exact mapM_append_cons_eq_ok_iff.mpr ⟨fs, hmore hfs, b,
    hr u' n' _ b hn' (Or.inl (le_max_right n n')), gs, hmore hgs, rfl⟩

/-- An array cannot be read if one of its elements cannot. -/
lemma not_takes_list (h : Tree.Listwise (fun _ u' => ¬ r.Takes u') t t') : ¬ (list r).Takes t' := by
  rintro ⟨d, as, has⟩
  obtain ⟨front, back, h⟩ := h
  obtain ⟨n, items, rfl, hitems, has⟩ := list_eq_ok_iff.mp has
  cases hitems
  obtain ⟨-, -, b, hb, -⟩ := mapM_append_cons_eq_ok_iff.mp has
  exact h ⟨n, b, hb⟩

section

variable {type : String} {forms : List (Reader α)}

/-- **A type with several forms keeps what the form keeps that fits.** -/
lemma keeps_choice (hthorough : ∀ r ∈ forms, r.Thorough) (hexcludes : forms.Pairwise Excludes)
    (hr : r ∈ forms) (htakes : r.Takes t) (h : r.Keeps t t') :
    (choice type forms).Keeps t t' := by
  intro d a ha
  obtain ⟨r', hr', hra'⟩ := (choice_eq_ok_iff_of_thorough hthorough hexcludes).mp ha
  have hsame : r' = r := by
    by_contra hne
    obtain ⟨e, b, hb⟩ := htakes
    have : Std.Symm fun q q' : Reader α => q.Excludes q' := ⟨fun _ _ h => h.symm⟩
    exact hexcludes.forall hr' hr hne d e t a b hra' hb
  obtain ⟨d', hd'⟩ := h d a (hsame ▸ hra')
  exact ⟨d', (choice_eq_ok_iff_of_thorough hthorough hexcludes).mpr ⟨r, hr, hd'⟩⟩

lemma not_takes_choice (hexcludes : forms.Pairwise Excludes) (h : ∀ r ∈ forms, ¬ r.Takes t) :
    ¬ (choice type forms).Takes t := by
  rintro ⟨d, a, ha⟩
  obtain ⟨-, r, hr, hra⟩ := (choice_eq_ok_iff hexcludes).mp ha
  exact h r hr ⟨d, a, hra⟩

end

end Reader

/-! ## What a change does to a record -/

namespace Shape

variable {F α : Type} {s : Shape F} {made : s.Slots → α → Prop} {r : Reader α} {d : Nat} {a : α}
  {t t' : Tree} {absent : F → Option Tree}

/-- Stand-ins fill the slots that would be empty. -/
lemma Slots.Hold.or {slots default : s.Slots} {part : F → Option Tree} (h : slots.Hold d part)
    (hdefault : default.Hold d absent) :
    Slots.Hold (fun f => (slots f).or (default f)) d fun f => (part f).or (absent f) := by
  intro f
  cases hpart : part f with
  | none => simpa only [hpart, (h f).1 hpart, Option.none_or] using hdefault f
  | some u =>
      obtain ⟨v, hv, hslot⟩ := (h f).2 u hpart
      have hfilled : (slots f).or (default f) = some v := by rw [hslot, Option.some_or]
      refine ⟨fun hnone => ?_, fun w hw => ⟨v, ?_, hfilled⟩⟩
      · simp [hpart] at hnone
      · obtain rfl : u = w := by simpa [hpart] using hw
        exact hv

variable (s) in
/-- What the stand-ins for absent fields are read as. -/
def standIns (absent : F → Option Tree) : s.Slots :=
  fun f => (absent f).bind fun u => (s.read f 1 u).toOption

variable (s) in
/-- **A field that is absent counts as its stand-in**: the stand-ins can be read with one level
left, and it makes no difference to a record if its empty slots are filled with them. -/
structure Defaults (made : s.Slots → α → Prop) (absent : F → Option Tree) : Prop where
  read : ∀ f, ∀ u ∈ absent f, ∃ v, s.read f 1 u = .ok v
  fill : ∀ slots a, made slots a → made (fun f => (slots f).or (s.standIns absent f)) a

lemma Defaults.hold (h : s.Defaults made absent) : (s.standIns absent).Hold 1 absent := by
  refine fun f => ⟨fun hf => by rw [standIns, hf, Option.bind_none], fun u hu => ?_⟩
  obtain ⟨v, hv⟩ := h.read f u hu
  refine ⟨v, hv, ?_⟩
  rw [standIns, hu, Option.bind_some, hv, Except.toOption]

/-- Of a record without defaults no field may be absent. -/
lemma defaults_none : s.Defaults made fun _ => none :=
  ⟨fun _ => nofun, fun slots a h => by simpa [standIns] using h⟩

variable [DecidableEq F]

lemma Reads.rearrange (h : s.Reads made d t a) (ht : s.Rearranges t t') : s.Reads made d t' a := by
  obtain ⟨n, rfl, hfits, slots, hhold, hmade⟩ := h
  obtain ⟨hfits', hpart⟩ := ht.fits_and_part? hfits
  refine ⟨n, rfl, hfits', slots, ?_, hmade⟩
  simpa only [hpart] using hhold

/-- A change of a part asks for as many levels as the part or the rest does. -/
lemma Reads.inside (h : s.Reads made d t a) (hfields : s.fields.Nodup)
    (hsteady : ∀ f, (s.read f).Steady) (ht : s.Inside (fun f => (s.read f).Keeps) t t') :
    ∃ d', s.Reads made d' t' a := by
  obtain ⟨n, rfl, hfits, slots, hhold, hmade⟩ := h
  obtain ⟨hfits', f, u, u', hkeeps, hu, hu', hother⟩ := ht.fits_and_part? hfields hfits
  obtain ⟨v, hv, hslot⟩ := (hhold f).2 u hu
  obtain ⟨n', hn'⟩ := hkeeps n v hv
  refine ⟨max n n' + 1, max n n', rfl, hfits', slots, fun g => ?_, hmade⟩
  by_cases hg : g = f
  · subst hg
    refine ⟨fun hnone => ?_, fun w hw => ⟨v, ?_, hslot⟩⟩
    · cases hnone.symm.trans hu'
    · cases hu'.symm.trans hw
      exact hsteady g u' n' _ v hn' (Or.inl (le_max_right n n'))
  · have hmore : slots.Hold (max n n') fun f => s.part? f t :=
      hhold.of_enough fun f u _ => ⟨hsteady f u, Or.inl (le_max_left n n')⟩
    simpa only [hother g hg] using hmore g

/-- An array asks for a level more, since stand-ins may be empty lists. -/
lemma Reads.unkey (h : s.Reads made d t a) (hfields : s.fields.Nodup)
    (hcomplete : ∀ f, f ∈ s.fields) (hsteady : ∀ f, (s.read f).Steady)
    (hdefaults : s.Defaults made absent) (ht : s.Unkeys absent t t') :
    s.Reads made (d + 1) t' a := by
  obtain ⟨n, rfl, -, slots, hhold, hmade⟩ := h
  obtain ⟨hfits', hpart⟩ := ht.fits_and_part? hfields hcomplete
  refine ⟨n + 1, rfl, hfits', _, ?_, hdefaults.fill slots a hmade⟩
  have hmore : slots.Hold (n + 1) fun f => s.part? f t :=
    hhold.of_enough fun f u _ => ⟨hsteady f u, Or.inl (Nat.le_succ n)⟩
  have hdefault : (s.standIns absent).Hold (n + 1) absent :=
    hdefaults.hold.of_enough fun f u _ => ⟨hsteady f u, Or.inl (Nat.le_add_left 1 n)⟩
  simpa only [hpart] using hmore.or hdefault

/-- **A record is read as the same in another spelling**, if its parts are. -/
lemma IsRecord.keeps (h : s.IsRecord made r) (hsteady : ∀ f, (s.read f).Steady)
    (hdefaults : s.Defaults made absent) {R : F → Tree → Tree → Prop}
    (hR : ∀ f t t', R f t t' → (s.read f).Keeps t t') (ht : s.Respells absent R t t') :
    r.Keeps t t' := by
  intro d a ha
  simp only [h.eq_ok_iff] at ha ⊢
  rcases ht with ht | ht | ht
  · exact ⟨d, ha.rearrange ht⟩
  · exact ⟨d + 1, ha.unkey h.nodup h.complete hsteady hdefaults ht⟩
  · exact ha.inside h.nodup hsteady (ht.mono hR)

/-- A record cannot be read if one of its parts cannot. -/
lemma IsRecord.not_takes_of_inside (h : s.IsRecord made r) {R : F → Tree → Tree → Prop}
    (hR : ∀ f t t', R f t t' → ¬ (s.read f).Takes t') (ht : s.Inside R t t') : ¬ r.Takes t' := by
  rintro ⟨d, a, ha⟩
  obtain ⟨n, rfl, hfits, slots, hhold, -⟩ := h.eq_ok_iff.mp ha
  obtain ⟨-, f, u', u, hpart, hu', -⟩ := ht.symm.fits_and_part? h.nodup hfits
  obtain ⟨v, hv, -⟩ := (hhold f).2 u' hu'
  exact hR f u u' hpart ⟨n, v, hv⟩

/-- **A record that minds unknown members refuses an object that has one.** -/
lemma IsRecord.not_takes_of_mem (h : s.IsRecord made r) (hclosed : s.closed = true) {key : String}
    {u : Tree} {members : List (Option String × Tree)} (hmem : (some key, u) ∈ members)
    (hkey : s.field? key = none) : ¬ r.Takes (.obj members) := by
  rintro ⟨d, a, ha⟩
  obtain ⟨n, rfl, hfits, -⟩ := h.eq_ok_iff.mp ha
  obtain ⟨f, hf⟩ := admits_some_iff.mp (hfits.1 _ hmem) hclosed
  rw [hkey] at hf
  cases hf

/-- An object has a member for each field that the record cannot do without. -/
lemma IsRecord.exists_mem (h : s.IsRecord made r) {members : List (Option String × Tree)}
    (htakes : r.Takes (.obj members)) {f : F}
    (hrequired : ∀ slots a, made slots a → ∃ v, slots f = some v) :
    ∃ u, (some (s.key f), u) ∈ members := by
  obtain ⟨d, a, ha⟩ := htakes
  obtain ⟨n, rfl, -, slots, hhold, hmade⟩ := h.eq_ok_iff.mp ha
  obtain ⟨v, hv⟩ := hrequired slots a hmade
  obtain ⟨u, hu, -⟩ := hhold.exists_part hv
  exact ⟨u, mem_of_member? hu⟩

end Shape

end Microstep.Json
