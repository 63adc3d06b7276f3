import Mathlib
import Microstep.Json.Record
import Microstep.Proofs.Json.Lexis
import Microstep.Proofs.Json.Spelling
import Microstep.Proofs.Json.Value
import Microstep.Proofs.Sequencing

/-!
# What readers do

Readers are put together from smaller ones, and so is what is known about them.  There are three
judgements, and a rule for each way of putting readers together.

* `Reader.Reads r d v a` — with `d` levels left, the written value `v` is read as `a`, or is nested
  too deeply if it has more levels than that;
* `Reader.Refuses r v` — the written value `v` is not read;
* `Reader.Ensures r d P` — whatever is read with `d` levels left satisfies `P`.

The first two are about what was written, and `Reads` carries over to the text in every layout
(`Reader.Reads.run_text`).  The third is about any syntax tree, also one that nothing would write.

A value that is too deep is told to be just that, and no other fault comes before.  The members in
front of one that is too deep are read (`Shape.reads_record`), and a type with several forms reads
the value as a whole before it tries any of them (`Reader.choice_tree_of_lt`).

Whole values are read by `Tree.value`: it puts members in order (`Tree.value_tree_eq`), and what it
reads is in order and fits the levels (`Tree.isOrdered_and_depth_of_value`).
-/

namespace Microstep.Json

/-! ## Whole values -/

namespace Tree

/-- **A written value is read as its normal form**, if there are levels enough for it, and is too
deep otherwise. -/
theorem value_tree_eq {v : Json} (h : v.isFloatFree = true) (d : Nat) :
    value d v.tree = if v.depth ≤ d then .ok v.normal else .error .tooDeep := by
  induction v generalizing d with
  | num n =>
      cases n with
      | int i hrange =>
          have hvalue := Numeral.value?_intNumeral hrange
          simp [value, Number.numeral, hvalue, normal, fold]
      | float bits => cases h
  | arr items ih =>
      rw [isFloatFree_arr] at h
      cases d with
      | zero => simp [value, depth, fold_arr]
      | succ d =>
          have hitems : items.mapM (value d ∘ tree)
              = if ∀ v ∈ items, v.depth ≤ d then .ok (items.map normal) else .error .tooDeep :=
            mapM_eq_ite fun v hv => ih v hv (h v hv) d
          rw [tree_arr, value, List.mapM_map, hitems]
          simp only [depth_arr_le_iff, normal_arr]
          split_ifs <;> rfl
  | obj members ih =>
      rw [isFloatFree_obj] at h
      cases d with
      | zero => simp [value, depth, fold_obj]
      | succ d =>
          rw [tree_obj, value, List.mapM_map, mapM_eq_ite (g := fun m => (m.1, m.2.normal))
            (p := fun m => m.2.depth ≤ d) (e := .tooDeep)]
          · simp only [depth_obj_le_iff, normal_obj]
            split_ifs <;> rfl
          · intro m hm
            simp only [Function.comp_apply, literal, ih m hm (h m hm) d]
            split_ifs <;> rfl
  | null => simp [value, normal, fold]
  | bool b => simp [value, normal, fold]
  | str s => simp [value, normal, fold, literal]

/-- **What is read is in order and fits the levels.** -/
theorem isOrdered_and_depth_of_value {t : Tree} {d : Nat} {v : Json} (h : value d t = .ok v) :
    v.isOrdered = true ∧ v.depth ≤ d := by
  induction t generalizing d v with
  | null =>
      rw [value] at h
      cases h
      exact ⟨rfl, Nat.zero_le d⟩
  | bool b =>
      rw [value] at h
      cases h
      exact ⟨rfl, Nat.zero_le d⟩
  | num n =>
      rw [value] at h
      split at h
      · cases h
        exact ⟨rfl, Nat.zero_le d⟩
      · cases h
  | str s =>
      rw [value, bind_eq_ok_iff] at h
      obtain ⟨s, -, hv⟩ := h
      cases hv
      exact ⟨rfl, Nat.zero_le d⟩
  | arr items ih =>
      cases d with
      | zero =>
          rw [value] at h
          cases h
      | succ d =>
          rw [value, bind_eq_ok_iff] at h
          obtain ⟨values, hvalues, hv⟩ := h
          cases hv
          rw [mapM_eq_ok_iff] at hvalues
          have hall : ∀ w ∈ values, w.isOrdered = true ∧ w.depth ≤ d := fun w hw => by
            obtain ⟨t, ht, htw⟩ := exists_of_forall₂_right hvalues hw
            exact ih t ht htw
          exact ⟨isOrdered_arr.mpr fun w hw => (hall w hw).1,
            depth_arr_le_iff.mpr fun w hw => (hall w hw).2⟩
  | obj members ih =>
      cases d with
      | zero =>
          rw [value] at h
          cases h
      | succ d =>
          rw [value, bind_eq_ok_iff] at h
          obtain ⟨values, hvalues, hv⟩ := h
          cases hv
          rw [mapM_eq_ok_iff] at hvalues
          have hall : ∀ n ∈ ofMembers values, n.2.isOrdered = true ∧ n.2.depth ≤ d := fun n hn => by
            obtain ⟨m, hm, hmn⟩ := exists_of_forall₂_right hvalues (mem_of_mem_ofMembers hn)
            obtain ⟨k, -, hkn⟩ := bind_eq_ok_iff.mp hmn
            obtain ⟨w, hw, hwn⟩ := bind_eq_ok_iff.mp hkn
            cases hwn
            exact ih m hm hw
          exact ⟨isOrdered_obj.mpr ⟨ordered_ofMembers values, fun n hn => (hall n hn).1⟩,
            depth_obj_le_iff.mpr fun n hn => (hall n hn).2⟩

end Tree

namespace Reader

variable {α β : Type} {r : Reader α} {d : Nat} {v : Json} {a : α}

/-! ## Values that are read -/

/-- **With `d` levels left the value `v` is read as `a`**, unless it has more levels than that and
is too deep. -/
def Reads (r : Reader α) (d : Nat) (v : Json) (a : α) : Prop :=
  r d v.tree = if v.depth ≤ d then .ok a else .error .tooDeep

/-- **What is read from a value is read from its text**, whatever the layout.  A text is too deep if
it has more levels than any text may have. -/
theorem Reads.run_text (h : Reads r maxDepth v a) {l : Layout} (hl : l.IsBlank)
    (hfloat : v.isFloatFree = true) :
    r.run (v.text l) = if v.depth ≤ maxDepth then .ok a else .error .tooDeep := by
  rw [run, ofText?_text hl hfloat]
  exact h

lemma reads_value (h : v.isFloatFree = true) (hordered : v.isOrdered = true) :
    Reads Tree.value d v v := by
  rw [Reads, Tree.value_tree_eq h, normal_of_isOrdered hordered]

lemma Reads.map (h : Reads r d v a) (f : α → β) : Reads (r.map f) d v (f a) := by
  rw [Reads] at h ⊢
  rw [Reader.map, h]
  split_ifs <;> rfl

/-- A scalar is never too deep. -/
lemma reads_scalar (hv : v.depth = 0) (h : r d v.tree = .ok a) : Reads r d v a := by
  rw [Reads, hv, if_pos (Nat.zero_le d), h]

lemma reads_bool (b : Bool) : Reads bool d (.bool b) b := reads_scalar rfl rfl

lemma reads_string (s : String) : Reads string d (.str s) s := reads_scalar rfl rfl

lemma reads_integer {low high i : Int} {hrange : InWordRange i} (hlow : low ≤ i)
    (hhigh : i ≤ high) : Reads (integer low high) d (.num (.int i hrange)) i := by
  refine reads_scalar rfl ?_
  simp [integer, Number.numeral, Numeral.value?_intNumeral hrange, hlow, hhigh]

lemma reads_int64 (n : Int64) : Reads int64 d (Json.int64 n) n := by
  have hlow := n.le_toInt
  have hhigh := n.toInt_lt
  have hread : Reads (integer (-9223372036854775808) 9223372036854775807) d (Json.int64 n)
      n.toInt :=
    reads_integer (by omega) (by omega)
  rw [int64]
  simpa using hread.map Int64.ofInt

lemma reads_uint32 (n : UInt32) : Reads uint32 d (Json.uint32 n) n := by
  have hhigh := n.toNat_lt
  have hread : Reads (integer 0 4294967295) d (Json.uint32 n) n.toNat :=
    reads_integer (by omega) (by omega)
  rw [uint32]
  simpa using hread.map fun v => UInt32.ofNat v.toNat

/-- Elements that are written one by one are read one by one, up to one that is too deep. -/
lemma reads_list_map {write : α → Json} {as : List α}
    (h : ∀ a ∈ as, Reads r (d - 1) (write a) a) : Reads (list r) d (.arr (as.map write)) as := by
  cases d with
  | zero => simp [Reads, list, depth, fold_arr]
  | succ d =>
      have hitems := mapM_eq_ite (f := fun a => r d (write a).tree) (g := fun a => a) h
      rw [List.map_id'] at hitems
      rw [Reads, tree_arr, List.map_map, list, List.mapM_map]
      simp only [depth_arr_le_iff, List.forall_mem_map]
      exact hitems

lemma Reads.optional (h : Reads r d v a) (hv : v ≠ .null) : Reads (optional r) d v (some a) := by
  have hread : Reader.optional r d v.tree = some <$> r d v.tree := by
    cases v with
    | null => exact absurd rfl hv
    | _ => simp [Reader.optional]
  rw [Reads] at h ⊢
  rw [hread, h]
  split_ifs <;> rfl

/-! ## Values that are not read -/

/-- **The value `v` is not read**, however many levels are left. -/
def Refuses (r : Reader α) (v : Json) : Prop := ∀ d, ∃ fault, r d v.tree = .error fault

lemma Refuses.map (h : Refuses r v) (f : α → β) : Refuses (r.map f) v := by
  intro d
  obtain ⟨fault, hfault⟩ := h d
  refine ⟨fault, ?_⟩
  rw [Reader.map, hfault]
  rfl

lemma refuses_int64_str (s : String) : Refuses int64 (.str s) := fun _ => ⟨.wrongType, rfl⟩

lemma refuses_uint32_str (s : String) : Refuses uint32 (.str s) := fun _ => ⟨.wrongType, rfl⟩

/-- The value has none of the forms if each of them refuses it. -/
lemma findSome?_eq_none_of_refuses {forms : List (Reader α)} (h : ∀ r ∈ forms, Refuses r v)
    (d : Nat) :
    forms.findSome? (fun r => (r d v.tree).toOption) = none := by
  rw [List.findSome?_eq_none_iff]
  intro r hr
  obtain ⟨fault, hfault⟩ := h r hr d
  rw [hfault]
  rfl

lemma refuses_choice {type : String} {forms : List (Reader α)} (h : ∀ r ∈ forms, Refuses r v) :
    Refuses (choice type forms) v := by
  intro d
  cases hvalue : v.tree.value d with
  | error fault =>
      refine ⟨fault, ?_⟩
      rw [choice, hvalue]
      rfl
  | ok w =>
      refine ⟨.noVariant type, ?_⟩
      rw [choice, hvalue]
      simp only [findSome?_eq_none_of_refuses h d]
      rfl

/-! ## Values with several forms -/

/-- A value that is too deep as a whole is not tried in any form. -/
lemma choice_tree_of_lt (type : String) (forms : List (Reader α)) (hfloat : v.isFloatFree = true)
    (hd : d < v.depth) : choice type forms d v.tree = .error .tooDeep := by
  rw [choice, Tree.value_tree_eq hfloat, if_neg (Nat.not_le.mpr hd)]
  rfl

/-- **The first form that fits counts**: those in front of it refuse the value. -/
lemma reads_choice {type : String} (front : List (Reader α)) {back : List (Reader α)}
    (hfloat : v.isFloatFree = true) (hfront : ∀ r' ∈ front, Refuses r' v) (h : Reads r d v a) :
    Reads (choice type (front ++ r :: back)) d v a := by
  rw [Reads] at h ⊢
  split_ifs at h ⊢ with hd
  · have hnone := findSome?_eq_none_of_refuses hfront d
    have hsome : (front ++ r :: back).findSome? (fun r => (r d v.tree).toOption) = some a := by
      rw [List.findSome?_append, hnone, List.findSome?_cons, h]
      rfl
    rw [choice, Tree.value_tree_eq hfloat, if_pos hd]
    simp only [hsome]
    rfl
  · exact choice_tree_of_lt _ _ hfloat (Nat.not_le.mp hd)

/-! ## What was read -/

/-- **Whatever is read with `d` levels left satisfies `P`.** -/
def Ensures (r : Reader α) (d : Nat) (P : α → Prop) : Prop := ∀ t a, r d t = .ok a → P a

lemma Ensures.map {f : α → β} {P : β → Prop} (h : Ensures r d fun a => P (f a)) :
    Ensures (r.map f) d P := by
  intro t b hb
  obtain ⟨a, ha, rfl⟩ := map_eq_ok_iff.mp hb
  exact h t a ha

lemma ensures_list {P : α → Prop} (h : Ensures r (d - 1) P) :
    Ensures (list r) d fun as => ∀ a ∈ as, P a := by
  intro t as has a ha
  cases t with
  | arr items =>
      cases d with
      | zero => cases has
      | succ d =>
          rw [list, mapM_eq_ok_iff] at has
          obtain ⟨t, -, hta⟩ := exists_of_forall₂_right has ha
          exact h t a hta
  | _ => simp [list] at has

lemma ensures_optional {P : α → Prop} (h : Ensures r d P) :
    Ensures (optional r) d fun o => ∀ a ∈ o, P a := by
  intro t o ho a ha
  cases t with
  | null =>
      cases ho
      cases ha
  | _ =>
      obtain ⟨b, hb, rfl⟩ := map_eq_ok_iff.mp ho
      cases ha
      exact h _ a hb

lemma ensures_choice {type : String} {forms : List (Reader α)} {P : α → Prop}
    (h : ∀ r ∈ forms, Ensures r d P) : Ensures (choice type forms) d P := by
  intro t a ha
  rw [choice, bind_eq_ok_iff] at ha
  obtain ⟨_, -, ha⟩ := ha
  split at ha
  · cases ha
    rename_i hfind
    obtain ⟨r, hr, hra⟩ := List.exists_of_findSome?_eq_some hfind
    cases hread : r d t with
    | error e =>
        rw [hread] at hra
        cases hra
    | ok b =>
        rw [hread] at hra
        cases hra
        exact h r hr t a hread
  · cases ha

end Reader

/-! ## Records -/

namespace Shape

variable {F α : Type} {s : Shape F}

lemma Slots.require_eq_ok_iff {slots : s.Slots} {absent : String → ReadFault} {f : F}
    {v : s.Value f} : slots.require absent f = .ok v ↔ slots f = some v := by
  cases hf : slots f with
  | none => simp [Slots.require, hf]
  | some w => simp [Slots.require, hf]

/-- What holds of a field that was read, and of what stands for it if it was not. -/
lemma Slots.getD_forall {slots : s.Slots} {f : F} {P : s.Value f → Prop} {absent : s.Value f}
    (h : ∀ v ∈ slots f, P v) (habsent : P absent) : P ((slots f).getD absent) := by
  cases hf : slots f with
  | none => exact habsent
  | some v => exact h v hf

variable [DecidableEq F]

/-- Members that fill the slots of a record, unless one of them has more than the `d` levels that
are left. -/
def Fills (s : Shape F) (d : Nat) (slots : s.Slots) (members : List (String × Json))
    (filled : s.Slots) : Prop :=
  s.readMembers d slots (members.map fun m => (some m.1, m.2.tree))
    = if ∀ m ∈ members, m.2.depth ≤ d then .ok filled else .error .tooDeep

lemma fills_nil {d : Nat} (slots : s.Slots) : s.Fills d slots [] slots := by
  rw [Fills, if_pos (by simp)]
  rfl

lemma fills_cons {d : Nat} {slots filled : s.Slots} {key : String} {f : F} {v : Json}
    {a : s.Value f} {members : List (String × Json)} (hfield : s.field? key = some f)
    (hempty : slots f = none) (hread : (s.read f).Reads d v a)
    (hrest : s.Fills d (slots.set f a) members filled) :
    s.Fills d slots ((key, v) :: members) filled := by
  rw [Reader.Reads] at hread
  rw [Fills, List.map_cons, readMembers, hfield]
  simp only [hempty, hread, List.forall_mem_cons]
  by_cases hv : v.depth ≤ d
  · simp only [hv, true_and, if_true]
    exact hrest
  · simp only [hv, false_and, if_false]
    rfl

/-- What is written as an object is read as one. -/
lemma record_tree_obj (make : (String → ReadFault) → s.Slots → Except ReadFault α) (d : Nat)
    (members : List (String × Json)) :
    s.record make d (Json.obj members).tree = s.object make d (Json.obj members).tree := by
  rw [tree_obj]
  rfl

lemma reads_object {make : (String → ReadFault) → s.Slots → Except ReadFault α} {d : Nat}
    {members : List (String × Json)} {filled : s.Slots} {a : α}
    (hfills : s.Fills (d - 1) .empty members filled) (hmake : make .missingField filled = .ok a) :
    (s.object make).Reads d (.obj members) a := by
  cases d with
  | zero => simp [Reader.Reads, object, depth, fold_obj]
  | succ d =>
      rw [Fills, Nat.add_sub_cancel] at hfills
      rw [Reader.Reads, tree_obj, object, hfills]
      simp only [depth_obj_le_iff]
      split_ifs
      · exact hmake
      · rfl

/-- **A record is read from its members**, unless one of them is too deep. -/
lemma reads_record {make : (String → ReadFault) → s.Slots → Except ReadFault α} {d : Nat}
    {members : List (String × Json)} {filled : s.Slots} {a : α}
    (hfills : s.Fills (d - 1) .empty members filled) (hmake : make .missingField filled = .ok a) :
    (s.record make).Reads d (.obj members) a := by
  rw [Reader.Reads, record_tree_obj]
  exact reads_object hfills hmake

/-- **A record that knows its own fields only** is not read from an object that starts with another
key. -/
lemma refuses_record {make : (String → ReadFault) → s.Slots → Except ReadFault α}
    (hclosed : s.closed = true) {key : String} (hkey : s.field? key = none) (v : Json)
    (members : List (String × Json)) : (s.record make).Refuses (.obj ((key, v) :: members)) := by
  intro d
  cases d with
  | zero => exact ⟨.tooDeep, by simp [record, object]⟩
  | succ d =>
      refine ⟨.unknownField key (s.fields.map s.key), ?_⟩
      simp only [tree_obj, List.map_cons, record, object, readMembers, hkey, hclosed, if_true]
      rfl

lemma Slots.forall_set {P : (f : F) → s.Value f → Prop} {slots : s.Slots}
    (hslots : ∀ f, ∀ v ∈ slots f, P f v) {f : F} {v : s.Value f} (hv : P f v) :
    ∀ g, ∀ w ∈ slots.set f v g, P g w := by
  intro g w hw
  by_cases hg : f = g
  · subst hg
    rw [Slots.set_self, Option.mem_some_iff] at hw
    exact hw ▸ hv
  · rw [Slots.set_of_ne slots v hg] at hw
    exact hslots g w hw

/-- What holds of everything that a field is read as holds of what fills the slots. -/
lemma readMembers_forall {d : Nat} {P : (f : F) → s.Value f → Prop}
    (hread : ∀ f, (s.read f).Ensures d (P f)) {members : List (Option String × Tree)}
    {slots filled : s.Slots} (h : s.readMembers d slots members = .ok filled)
    (hslots : ∀ f, ∀ v ∈ slots f, P f v) : ∀ f, ∀ v ∈ filled f, P f v := by
  fun_induction readMembers s d slots members with
  | case1 slots =>
      cases h
      exact hslots
  | case4 slots key t rest f hf hempty ih =>
      obtain ⟨v, hv, hrest⟩ := bind_eq_ok_iff.mp h
      exact ih v hrest (Slots.forall_set hslots (hread f t v hv))
  | case6 slots key t rest hnone hopen ih => exact ih h hslots
  | _ => cases h

lemma readItems_forall {d : Nat} {P : (f : F) → s.Value f → Prop}
    (hread : ∀ f, (s.read f).Ensures d (P f)) {fields : List F} {items : List Tree}
    {slots filled : s.Slots} (h : s.readItems d slots fields items = .ok filled)
    (hslots : ∀ f, ∀ v ∈ slots f, P f v) : ∀ f, ∀ v ∈ filled f, P f v := by
  fun_induction readItems s d slots fields items with
  | case1 slots fields =>
      cases h
      exact hslots
  | case2 => cases h
  | case3 slots f fs t ts ih =>
      obtain ⟨v, hv, hrest⟩ := bind_eq_ok_iff.mp h
      exact ih v hrest (Slots.forall_set hslots (hread f t v hv))

section

variable {make : (String → ReadFault) → s.Slots → Except ReadFault α} {d : Nat}
  {P : (f : F) → s.Value f → Prop} {Q : α → Prop}

lemma ensures_object (hread : ∀ f, (s.read f).Ensures (d - 1) (P f))
    (hmake : ∀ absent slots a, (∀ f, ∀ v ∈ slots f, P f v) → make absent slots = .ok a → Q a) :
    (s.object make).Ensures d Q := by
  intro t a ha
  cases t with
  | obj members =>
      cases d with
      | zero => cases ha
      | succ d =>
          obtain ⟨filled, hfilled, ha⟩ := bind_eq_ok_iff.mp ha
          exact hmake _ filled a (readMembers_forall hread hfilled fun _ _ => nofun) ha
  | _ => simp [object] at ha

/-- **What holds of the fields of a record.** -/
lemma ensures_record (hread : ∀ f, (s.read f).Ensures (d - 1) (P f))
    (hmake : ∀ absent slots a, (∀ f, ∀ v ∈ slots f, P f v) → make absent slots = .ok a → Q a) :
    (s.record make).Ensures d Q := by
  intro t a ha
  cases t with
  | arr items =>
      cases d with
      | zero => cases ha
      | succ d =>
          obtain ⟨filled, hfilled, ha⟩ := bind_eq_ok_iff.mp ha
          exact hmake _ filled a (readItems_forall hread hfilled fun _ _ => nofun) ha
  | _ => exact ensures_object hread hmake _ a ha

end

end Shape

end Microstep.Json
