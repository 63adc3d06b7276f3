import Microstep.Proofs.Json.Reading

/-!
# What a record is read from

A record may be an object with its members in any order, or the array of its fields.  Its reader
goes through either one from left to right and fills slots on the way.  Here the outcome is told
without the way: which tree stands for which field (`Shape.part?`), and that each slot holds what
its tree is read as (`Shape.Slots.Hold`).  A record is read if and only if its tree fits the shape,
the slots can be filled, and the record can be made of them (`Shape.IsRecord`,
`Shape.isRecord_record`).

An object fits if it has no field twice and, where unknown members are faults, none of those
(`Shape.Fits`).  Since no field is there twice, the order of the members does not matter
(`Shape.member?_eq_some_iff`).
-/

namespace Microstep.Json.Shape

variable {F α : Type} (s : Shape F)

/-! ## Parts -/

/-- The field that a member is for. -/
def fieldOf? (m : Option String × Tree) : Option F := m.1.bind s.field?

/-- Whether a member may stand in an object. -/
def Admits (m : Option String × Tree) : Prop :=
  ∃ key, m.1 = some key ∧ (s.closed = true → ∃ f, s.field? key = some f)

/-- **Whether a tree has the form of the record**: no field twice and no other member that is a
fault, or not more elements than there are fields. -/
def Fits : Tree → Prop
  | .obj members => (∀ m ∈ members, s.Admits m) ∧ (members.filterMap s.fieldOf?).Nodup
  | .arr items => items.length ≤ s.fields.length
  | _ => False

lemma admits_some_iff {s : Shape F} {key : String} {t : Tree} :
    s.Admits (some key, t) ↔ (s.closed = true → ∃ f, s.field? key = some f) := by
  simp [Admits]

/-- A member for a field has its key. -/
lemma key_of_fieldOf? {s : Shape F} {f : F} {m : Option String × Tree} (h : s.fieldOf? m = some f) :
    m.1 = some (s.key f) := by
  obtain ⟨key, hkey, hf⟩ := Option.bind_eq_some_iff.mp h
  have hfind : s.fields.find? (fun f => s.key f == key) = some f := hf
  have heq : (s.key f == key) = true := by simpa using List.find?_some hfind
  rw [hkey, beq_iff_eq.mp heq]

/-- **The slots hold what the parts are read as**; those of absent parts are empty. -/
def Slots.Hold {s : Shape F} (slots : s.Slots) (d : Nat) (part : F → Option Tree) : Prop :=
  ∀ f, (part f = none → slots f = none) ∧ ∀ t ∈ part f, ∃ v, s.read f d t = .ok v ∧ slots f = some v

/-- A slot that is filled was filled from a part. -/
lemma Slots.Hold.exists_part {s : Shape F} {slots : s.Slots} {d : Nat} {part : F → Option Tree}
    (h : slots.Hold d part) {f : F} {v : s.Value f} (hv : slots f = some v) :
    ∃ t, part f = some t ∧ s.read f d t = .ok v := by
  cases hpart : part f with
  | none =>
      rw [(h f).1 hpart] at hv
      cases hv
  | some t =>
      obtain ⟨w, hw, hslot⟩ := (h f).2 t hpart
      cases hslot.symm.trans hv
      exact ⟨t, rfl, hw⟩

variable [DecidableEq F]

/-- What the members of an object have for a field. -/
def member? (f : F) (members : List (Option String × Tree)) : Option Tree :=
  (members.find? fun m => s.fieldOf? m = some f).map Prod.snd

/-- **What a tree has for a field**, as an object or as an array. -/
def part? (f : F) : Tree → Option Tree
  | .obj members => s.member? f members
  | .arr items => (s.fields.zip items).lookup f
  | _ => none

variable {s}

lemma member?_cons (f : F) (m : Option String × Tree) (members : List (Option String × Tree)) :
    s.member? f (m :: members)
      = if s.fieldOf? m = some f then some m.2 else s.member? f members := by
  rw [member?, List.find?_cons]
  split_ifs with h <;> simp [h, member?]

/-- **The order of members does not matter** where no field is there twice. -/
lemma member?_eq_some_iff {f : F} {members : List (Option String × Tree)} {t : Tree}
    (h : (members.filterMap s.fieldOf?).Nodup) :
    s.member? f members = some t ↔ ∃ m ∈ members, s.fieldOf? m = some f ∧ m.2 = t := by
  induction members with
  | nil => simp [member?]
  | cons m members ih =>
      rw [member?_cons]
      split_ifs with hm
      · rw [List.filterMap_cons_some hm, List.nodup_cons] at h
        have hrest : ∀ n ∈ members, s.fieldOf? n ≠ some f := fun n hn hnf =>
          h.1 (List.mem_filterMap.mpr ⟨n, hn, hnf⟩)
        simp only [List.exists_mem_cons_iff, hm, true_and, Option.some.injEq]
        refine ⟨Or.inl, ?_⟩
        rintro (ht | ⟨n, hn, hnf, -⟩)
        · exact ht
        · exact absurd hnf (hrest n hn)
      · have hrest : (members.filterMap s.fieldOf?).Nodup :=
          h.sublist ((List.sublist_cons_self m members).filterMap _)
        rw [ih hrest, List.exists_mem_cons_iff]
        simp [hm]

lemma mem_of_member? {f : F} {members : List (Option String × Tree)} {t : Tree}
    (h : s.member? f members = some t) : (some (s.key f), t) ∈ members := by
  obtain ⟨m, hm, rfl⟩ := Option.map_eq_some_iff.mp h
  have hof : s.fieldOf? m = some f := by simpa using List.find?_some hm
  rw [← key_of_fieldOf? hof]
  exact List.mem_of_find?_eq_some hm

lemma member?_eq_none_iff {f : F} {members : List (Option String × Tree)} :
    s.member? f members = none ↔ ∀ m ∈ members, s.fieldOf? m ≠ some f := by
  simp [member?]

/-! ## Slots -/

/-- **Members that fill slots**, told without their order: every member is admitted, no field is
there twice or was there before, and the slots of the fields that are there hold what was read. -/
structure Gathers (d : Nat) (slots : s.Slots) (members : List (Option String × Tree))
    (filled : s.Slots) : Prop where
  admits : ∀ m ∈ members, s.Admits m
  nodup : (members.filterMap s.fieldOf?).Nodup
  fresh : ∀ f ∈ members.filterMap s.fieldOf?, slots f = none
  kept : ∀ f, s.member? f members = none → filled f = slots f
  held : ∀ f, ∀ t ∈ s.member? f members, ∃ v, s.read f d t = .ok v ∧ filled f = some v

lemma member?_eq_none_of_notMem {f : F} {members : List (Option String × Tree)}
    (h : f ∉ members.filterMap s.fieldOf?) : s.member? f members = none :=
  member?_eq_none_iff.mpr fun m hm hmf => h (List.mem_filterMap.mpr ⟨m, hm, hmf⟩)

/-- A member for a field fills the slot of that field, and no later one does. -/
lemma gathers_cons_iff {d : Nat} {slots filled : s.Slots} {m : Option String × Tree} {f : F}
    {members : List (Option String × Tree)} (hm : s.fieldOf? m = some f) :
    Gathers d slots (m :: members) filled ↔
      s.Admits m ∧ slots f = none
        ∧ ∃ v, s.read f d m.2 = .ok v ∧ Gathers d (slots.set f v) members filled := by
  have hself : s.member? f (m :: members) = some m.2 := by rw [member?_cons, if_pos hm]
  have hother : ∀ g, f ≠ g → s.member? g (m :: members) = s.member? g members := fun g hg => by
    rw [member?_cons, if_neg fun h => hg (Option.some.inj (hm.symm.trans h))]
  constructor
  · rintro ⟨hadmits, hnodup, hfresh, hkept, hheld⟩
    rw [List.filterMap_cons_some hm] at hnodup hfresh
    obtain ⟨hnotMem, hnodup⟩ := List.nodup_cons.mp hnodup
    obtain ⟨hempty, hfresh⟩ := List.forall_mem_cons.mp hfresh
    obtain ⟨hhead, hadmits⟩ := List.forall_mem_cons.mp hadmits
    obtain ⟨v, hv, hfilled⟩ := hheld f m.2 hself
    refine ⟨hhead, hempty, v, hv, hadmits, hnodup, fun g hg => ?_, fun g hg => ?_, fun g t ht => ?_⟩
    · have hne : f ≠ g := fun h => hnotMem (h ▸ hg)
      rw [Slots.set_of_ne slots v hne, hfresh g hg]
    · by_cases hfg : f = g
      · subst hfg
        rw [hfilled, Slots.set_self]
      · rw [Slots.set_of_ne slots v hfg]
        exact hkept g ((hother g hfg).trans hg)
    · have hne : f ≠ g := by
        rintro rfl
        rw [member?_eq_none_of_notMem hnotMem] at ht
        cases ht
      exact hheld g t ((hother g hne).trans ht)
  · rintro ⟨hhead, hempty, v, hv, hadmits, hnodup, hfresh, hkept, hheld⟩
    have hnotMem : f ∉ members.filterMap s.fieldOf? := fun h => by
      have := hfresh f h
      rw [Slots.set_self] at this
      cases this
    refine ⟨List.forall_mem_cons.mpr ⟨hhead, hadmits⟩, ?_, ?_, fun g hg => ?_, fun g t ht => ?_⟩
    · rw [List.filterMap_cons_some hm]
      exact List.nodup_cons.mpr ⟨hnotMem, hnodup⟩
    · rw [List.filterMap_cons_some hm]
      refine List.forall_mem_cons.mpr ⟨hempty, fun g hg => ?_⟩
      have hne : f ≠ g := fun h => hnotMem (h ▸ hg)
      rw [← Slots.set_of_ne slots v hne]
      exact hfresh g hg
    · have hne : f ≠ g := by
        rintro rfl
        rw [hself] at hg
        cases hg
      rw [hkept g ((hother g hne).symm.trans hg), Slots.set_of_ne slots v hne]
    · by_cases hfg : f = g
      · subst hfg
        cases hself.symm.trans ht
        refine ⟨v, hv, ?_⟩
        rw [hkept f (member?_eq_none_of_notMem hnotMem), Slots.set_self]
      · exact hheld g t ((hother g hfg).symm.trans ht)

/-- A member for no field fills no slot. -/
lemma gathers_cons_of_none {d : Nat} {slots filled : s.Slots} {m : Option String × Tree}
    {members : List (Option String × Tree)} (hm : s.fieldOf? m = none) :
    Gathers d slots (m :: members) filled ↔ s.Admits m ∧ Gathers d slots members filled := by
  have hskip : ∀ g, s.member? g (m :: members) = s.member? g members := fun g => by
    rw [member?_cons, hm, if_neg nofun]
  have hfields : (m :: members).filterMap s.fieldOf? = members.filterMap s.fieldOf? :=
    List.filterMap_cons_none hm
  constructor
  · rintro ⟨hadmits, hnodup, hfresh, hkept, hheld⟩
    obtain ⟨hhead, hadmits⟩ := List.forall_mem_cons.mp hadmits
    simp only [hskip, hfields] at hnodup hfresh hkept hheld
    exact ⟨hhead, hadmits, hnodup, hfresh, hkept, hheld⟩
  · rintro ⟨hhead, hadmits, hnodup, hfresh, hkept, hheld⟩
    simp only [← hskip, ← hfields] at hnodup hfresh hkept hheld
    exact ⟨List.forall_mem_cons.mpr ⟨hhead, hadmits⟩, hnodup, hfresh, hkept, hheld⟩

/-- **Reading members fills slots**, and refuses all else. -/
lemma readMembers_eq_ok_iff {d : Nat} {members : List (Option String × Tree)}
    {slots filled : s.Slots} :
    s.readMembers d slots members = .ok filled ↔ Gathers d slots members filled := by
  induction members generalizing slots with
  | nil =>
      constructor
      · intro h
        cases h
        exact ⟨by simp, by simp, by simp, fun _ _ => rfl, by simp [member?]⟩
      · intro h
        exact congrArg Except.ok (funext fun f => (h.kept f rfl).symm)
  | cons m members ih =>
      obtain ⟨key, t⟩ := m
      cases key with
      | none => rw [readMembers, gathers_cons_of_none rfl]; simp [Admits]
      | some key =>
          rw [readMembers]
          cases hfield : s.field? key with
          | none =>
              have hof : s.fieldOf? (some key, t) = none := hfield
              rw [gathers_cons_of_none hof, admits_some_iff, hfield]
              by_cases hclosed : s.closed = true
              · simp [hclosed]
              · simpa [hclosed] using ih
          | some f =>
              have hof : s.fieldOf? (some key, t) = some f := hfield
              rw [gathers_cons_iff hof, admits_some_iff, hfield]
              cases hslot : slots f with
              | some w => simp [hslot]
              | none => simp [hslot, bind_eq_ok_iff, ih]

/-! ## Arrays -/

lemma lookup_zip_of_notMem {f : F} {fields : List F} (h : f ∉ fields) (items : List Tree) :
    (fields.zip items).lookup f = none := by
  rw [List.lookup_eq_none_iff]
  intro p hp
  rw [bne_iff_ne]
  rintro rfl
  exact h (List.of_mem_zip hp).1

/-- The element for a field stands where the field does. -/
lemma lookup_zip_eq_getElem? {f : F} {fields : List F} (hnodup : fields.Nodup) {i : Nat}
    (hi : fields[i]? = some f) (items : List Tree) : (fields.zip items).lookup f = items[i]? := by
  induction fields generalizing i items with
  | nil => simp at hi
  | cons g fields ih =>
      obtain ⟨hnotMem, hnodup⟩ := List.nodup_cons.mp hnodup
      cases items with
      | nil => simp
      | cons t items =>
          rw [List.zip_cons_cons, List.lookup_cons]
          cases i with
          | zero =>
              obtain rfl : g = f := by simpa using hi
              simp
          | succ i =>
              have hi' : fields[i]? = some f := by simpa using hi
              have hne : f ≠ g := fun h => hnotMem (h ▸ List.mem_of_getElem? hi')
              simp [beq_false_of_ne hne, ih hnodup hi']

/-- **Reading elements fills slots** in the order of the fields. -/
lemma readItems_eq_ok_iff {d : Nat} {fields : List F} (hnodup : fields.Nodup) {items : List Tree}
    {slots filled : s.Slots} :
    s.readItems d slots fields items = .ok filled ↔
      items.length ≤ fields.length
        ∧ ∀ f, ((fields.zip items).lookup f = none → filled f = slots f)
          ∧ ∀ t ∈ (fields.zip items).lookup f, ∃ v, s.read f d t = .ok v ∧ filled f = some v := by
  induction fields generalizing items slots with
  | nil =>
      cases items with
      | nil =>
          have heq : slots = filled ↔ ∀ f, filled f = slots f := eq_comm.trans funext_iff
          simp [readItems, heq]
      | cons t items => simp [readItems]
  | cons f fields ih =>
      obtain ⟨hnotMem, hnodup⟩ := List.nodup_cons.mp hnodup
      cases items with
      | nil =>
          have heq : slots = filled ↔ ∀ f, filled f = slots f := eq_comm.trans funext_iff
          simp [readItems, heq]
      | cons t items =>
          have hself : (fields.zip items).lookup f = none := lookup_zip_of_notMem hnotMem items
          simp only [readItems, bind_eq_ok_iff, ih hnodup, List.length_cons,
            Nat.add_le_add_iff_right, List.zip_cons_cons, List.lookup_cons]
          constructor
          · rintro ⟨v, hv, hlen, h⟩
            refine ⟨hlen, fun g => ?_⟩
            by_cases hg : f = g
            · subst hg
              have hfilled : filled f = some v := by rw [(h f).1 hself, Slots.set_self]
              simp [hv, hfilled]
            · rw [← Slots.set_of_ne slots v hg, beq_false_of_ne (Ne.symm hg)]
              exact h g
          · rintro ⟨hlen, h⟩
            obtain ⟨v, hv, hfilled⟩ := (h f).2 t (by simp)
            refine ⟨v, hv, hlen, fun g => ?_⟩
            have hg := h g
            by_cases hfg : f = g
            · subst hfg
              simp [hself, hfilled]
            · rw [Slots.set_of_ne slots v hfg]
              rwa [beq_false_of_ne (Ne.symm hfg)] at hg

/-! ## Records -/

section

variable {make : (String → ReadFault) → s.Slots → Except ReadFault α} {d : Nat} {t : Tree} {a : α}

lemma gathers_empty_iff {members : List (Option String × Tree)} {slots : s.Slots} :
    Gathers d .empty members slots ↔
      s.Fits (.obj members) ∧ slots.Hold d fun f => s.part? f (.obj members) := by
  constructor
  · rintro ⟨hadmits, hnodup, -, hkept, hheld⟩
    exact ⟨⟨hadmits, hnodup⟩, fun f => ⟨hkept f, hheld f⟩⟩
  · rintro ⟨⟨hadmits, hnodup⟩, hhold⟩
    exact ⟨hadmits, hnodup, fun _ _ => rfl, fun f => (hhold f).1, fun f => (hhold f).2⟩

/-- **An object is read** if it fits, its parts are read, and they make a record. -/
lemma object_eq_ok_iff :
    s.object make d t = .ok a ↔
      ∃ n members, d = n + 1 ∧ t = .obj members ∧ s.Fits t
        ∧ ∃ slots : s.Slots, slots.Hold n (fun f => s.part? f t)
          ∧ make .missingField slots = .ok a := by
  cases t with
  | obj members =>
      cases d with
      | zero => simp [object]
      | succ n => simp [object, bind_eq_ok_iff, readMembers_eq_ok_iff, gathers_empty_iff, and_assoc]
  | _ => simp [object]

/-- An array is read if it fits, its parts are read, and they make a record. -/
lemma array_eq_ok_iff (hnodup : s.fields.Nodup) :
    s.array make d t = .ok a ↔
      ∃ n items, d = n + 1 ∧ t = .arr items ∧ s.Fits t
        ∧ ∃ slots : s.Slots, slots.Hold n (fun f => s.part? f t)
          ∧ make (fun _ => .wrongLength) slots = .ok a := by
  cases t with
  | arr items =>
      cases d with
      | zero => simp [array]
      | succ n =>
          simp only [array, bind_eq_ok_iff, readItems_eq_ok_iff hnodup, Nat.add_right_cancel_iff,
            exists_eq_left', Tree.arr.injEq, Fits, part?, Slots.Hold, Slots.empty, and_assoc,
            exists_and_left]
  | _ => simp [array]

end

variable (s) in
/-- **A tree is read as the record `a`**: with levels left it fits the shape, its parts fill the
slots, and `made` tells that `a` is made of them. -/
def Reads (made : s.Slots → α → Prop) (d : Nat) (t : Tree) (a : α) : Prop :=
  ∃ n, d = n + 1 ∧ s.Fits t ∧ ∃ slots : s.Slots, slots.Hold n (fun f => s.part? f t) ∧ made slots a

/-- **The reader `r` reads records of the shape**, in either form. -/
structure IsRecord (s : Shape F) (made : s.Slots → α → Prop) (r : Reader α) : Prop where
  nodup : s.fields.Nodup
  complete : ∀ f, f ∈ s.fields
  eq_ok_iff : ∀ {d : Nat} {t : Tree} {a : α}, r d t = .ok a ↔ s.Reads made d t a

/-- What is made of the slots must not depend on the fault that an empty slot is. -/
lemma isRecord_record {make : (String → ReadFault) → s.Slots → Except ReadFault α}
    {made : s.Slots → α → Prop} (hnodup : s.fields.Nodup) (hcomplete : ∀ f, f ∈ s.fields)
    (hmake : ∀ absent slots a, make absent slots = .ok a ↔ made slots a) :
    s.IsRecord made (s.record make) := by
  refine ⟨hnodup, hcomplete, fun {d t a} => ?_⟩
  simp only [Reads, ← hmake .missingField]
  cases t with
  | arr items =>
      have harray : s.record make d (.arr items) = s.array make d (.arr items) := rfl
      rw [harray, array_eq_ok_iff hnodup]
      simp [hmake]
  | obj members =>
      have hobject : s.record make d (.obj members) = s.object make d (.obj members) := rfl
      rw [hobject, object_eq_ok_iff]
      simp
  | _ => simp [record, object, Fits]

end Microstep.Json.Shape
