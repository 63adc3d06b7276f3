import Mathlib
import Microstep.Json.Tree
import Microstep.Json.Basic

/-!
# JSON values as trees

What is said about JSON values is said about the arrays and objects in them, and those hold lists of
further values.  This module has the one way of going through a value (`Json.fold`), the one way of
proving something about all values (`Json.induct`), and what the statements about text are made of.

* `Json.depth` — how many arrays and objects stand inside each other;
* `Json.isFloatFree` — no number is a float;
* `Json.isOrdered` — the members of every object stand in the order of their keys, each key once;
* `Json.normal` — the value with its members put in order;
* `Json.tree` — the syntax tree that a value is written as.

Members in order are what sorting makes of them (`Json.ordered_ofMembers`), and sorting leaves them
as they are (`Json.ofMembers_of_ordered`).
-/

namespace Microstep

namespace Json

/-! ## Going through a value -/

/-- **Induction on values**, with the elements of arrays and the values of members at once. -/
@[elab_as_elim, induction_eliminator]
theorem induct {P : Json → Prop} (null : P .null) (bool : ∀ b, P (.bool b)) (num : ∀ n, P (.num n))
    (str : ∀ s, P (.str s)) (arr : ∀ items, (∀ v ∈ items, P v) → P (.arr items))
    (obj : ∀ members, (∀ m ∈ members, P m.2) → P (.obj members)) (v : Json) : P v :=
  @Json.rec P (fun items => ∀ v ∈ items, P v) (fun members => ∀ m ∈ members, P m.2)
    (fun m => P m.2) null bool num str arr obj
    (fun _ h => nomatch h)
    (fun _ _ hv hvs => List.forall_mem_cons.mpr ⟨hv, hvs⟩)
    (fun _ h => nomatch h)
    (fun _ _ hm hms => List.forall_mem_cons.mpr ⟨hm, hms⟩)
    (fun _ _ hv => hv) v

/-- What is made of each kind of value. -/
structure Alg (α : Type) where
  null : α
  bool : Bool → α
  num : Number → α
  str : String → α
  arr : List α → α
  obj : List (String × α) → α

section

variable {α : Type} (a : Alg α)

mutual

/-- What is made of a value, from the inside out. -/
def fold : Json → α
  | .null => a.null
  | .bool b => a.bool b
  | .num n => a.num n
  | .str s => a.str s
  | .arr items => a.arr (foldItems items)
  | .obj members => a.obj (foldMembers members)

/-- What is made of the values of an array. -/
def foldItems : List Json → List α
  | [] => []
  | v :: vs => fold v :: foldItems vs

/-- What is made of the members of an object. -/
def foldMembers : List (String × Json) → List (String × α)
  | [] => []
  | (k, v) :: ms => (k, fold v) :: foldMembers ms

end

lemma foldItems_eq_map (items : List Json) : foldItems a items = items.map (fold a) := by
  induction items with
  | nil => rfl
  | cons v vs ih => rw [foldItems, ih, List.map_cons]

lemma foldMembers_eq_map (members : List (String × Json)) :
    foldMembers a members = members.map fun m => (m.1, fold a m.2) := by
  induction members with
  | nil => rfl
  | cons m ms ih => rw [foldMembers, ih, List.map_cons]

lemma fold_arr (items : List Json) : fold a (.arr items) = a.arr (items.map (fold a)) := by
  rw [fold, foldItems_eq_map]

lemma fold_obj (members : List (String × Json)) :
    fold a (.obj members) = a.obj (members.map fun m => (m.1, fold a m.2)) := by
  rw [fold, foldMembers_eq_map]

end

/-! ## Nesting -/

/-- The largest of some numbers. -/
def deepest (depths : List Nat) : Nat := depths.foldr max 0

lemma deepest_le_iff {depths : List Nat} {d : Nat} : deepest depths ≤ d ↔ ∀ n ∈ depths, n ≤ d := by
  induction depths with
  | nil => simp [deepest]
  | cons n rest ih =>
      rw [deepest, List.foldr_cons, Nat.max_le, List.forall_mem_cons]
      exact and_congr_right fun _ => ih

/-- **How deeply a value is nested**: how many arrays and objects stand inside each other. -/
def depth : Json → Nat :=
  fold
    { null := 0
      bool := fun _ => 0
      num := fun _ => 0
      str := fun _ => 0
      arr := fun items => deepest items + 1
      obj := fun members => deepest (members.map Prod.snd) + 1 }

@[simp] lemma depth_null : depth .null = 0 := rfl

@[simp] lemma depth_bool (b : Bool) : depth (.bool b) = 0 := rfl

@[simp] lemma depth_num (n : Number) : depth (.num n) = 0 := rfl

@[simp] lemma depth_str (s : String) : depth (.str s) = 0 := rfl

@[simp] lemma depth_arr_le_iff {items : List Json} {d : Nat} :
    depth (.arr items) ≤ d + 1 ↔ ∀ v ∈ items, v.depth ≤ d := by
  rw [depth, fold_arr, Nat.add_le_add_iff_right, deepest_le_iff, List.forall_mem_map]

@[simp] lemma depth_obj_le_iff {members : List (String × Json)} {d : Nat} :
    depth (.obj members) ≤ d + 1 ↔ ∀ m ∈ members, m.2.depth ≤ d := by
  rw [depth, fold_obj, Nat.add_le_add_iff_right, deepest_le_iff, List.forall_mem_map,
    List.forall_mem_map]

/-! ## Floats -/

/-- Whether a number is an integer. -/
def Number.isInt : Number → Bool
  | .int _ _ => true
  | .float _ => false

/-- **Whether no number of a value is a float.** -/
def isFloatFree : Json → Bool :=
  fold
    { null := true
      bool := fun _ => true
      num := Number.isInt
      str := fun _ => true
      arr := fun items => items.all id
      obj := fun members => members.all Prod.snd }

@[simp] lemma isFloatFree_null : isFloatFree .null = true := rfl

@[simp] lemma isFloatFree_bool (b : Bool) : isFloatFree (.bool b) = true := rfl

@[simp] lemma isFloatFree_num (n : Number) : isFloatFree (.num n) = n.isInt := rfl

@[simp] lemma isFloatFree_str (s : String) : isFloatFree (.str s) = true := rfl

@[simp] lemma isFloatFree_arr {items : List Json} :
    isFloatFree (.arr items) = true ↔ ∀ v ∈ items, v.isFloatFree = true := by
  simp [isFloatFree, fold_arr]

@[simp] lemma isFloatFree_obj {members : List (String × Json)} :
    isFloatFree (.obj members) = true ↔ ∀ m ∈ members, m.2.isFloatFree = true := by
  simp [isFloatFree, fold_obj]

@[simp] lemma isFloatFree_int64 (n : Int64) : (Json.int64 n).isFloatFree = true := rfl

@[simp] lemma isFloatFree_uint32 (n : UInt32) : (Json.uint32 n).isFloatFree = true := rfl

@[simp] lemma depth_int64 (n : Int64) : (Json.int64 n).depth = 0 := rfl

@[simp] lemma depth_uint32 (n : UInt32) : (Json.uint32 n).depth = 0 := rfl

/-! ## The order of members -/

section

variable {α : Type}

/-- Members whose keys go up. -/
def KeysOrdered (members : List (String × α)) : Prop := members.Pairwise fun m n => m.1 < n.1

instance (members : List (String × α)) : Decidable (KeysOrdered members) :=
  inferInstanceAs (Decidable (members.Pairwise _))

lemma keysOrdered_map {β : Type} {f : α → β} {members : List (String × α)} :
    KeysOrdered (members.map fun m => (m.1, f m.2)) ↔ KeysOrdered members := by
  rw [KeysOrdered, List.pairwise_map, KeysOrdered]

end

/-- **Whether the members of every object stand in the order of their keys**, each key once. -/
def isOrdered : Json → Bool :=
  fold
    { null := true
      bool := fun _ => true
      num := fun _ => true
      str := fun _ => true
      arr := fun items => items.all id
      obj := fun members => decide (KeysOrdered members) && members.all Prod.snd }

@[simp] lemma isOrdered_arr {items : List Json} :
    isOrdered (.arr items) = true ↔ ∀ v ∈ items, v.isOrdered = true := by
  simp [isOrdered, fold_arr]

@[simp] lemma isOrdered_obj {members : List (String × Json)} :
    isOrdered (.obj members) = true
      ↔ KeysOrdered members ∧ ∀ m ∈ members, m.2.isOrdered = true := by
  simp [isOrdered, fold_obj, keysOrdered_map]

/-- A key above all others goes to the end. -/
lemma insertMember_of_lt {key : String} {value : Json} {sorted : List (String × Json)}
    (h : ∀ m ∈ sorted, m.1 < key) : insertMember key value sorted = sorted ++ [(key, value)] := by
  induction sorted with
  | nil => rfl
  | cons m rest ih =>
      obtain ⟨hm, hrest⟩ := List.forall_mem_cons.mp h
      rw [insertMember, if_neg hm.ne', if_neg hm.asymm, ih hrest, List.cons_append]

lemma mem_insertMember {key : String} {value : Json} {m : String × Json}
    {sorted : List (String × Json)} (h : m ∈ insertMember key value sorted) :
    m = (key, value) ∨ m ∈ sorted := by
  induction sorted with
  | nil => simpa [insertMember] using h
  | cons n rest ih =>
      rw [insertMember] at h
      split_ifs at h with heq hlt
      · exact (List.mem_cons.mp h).imp_right (List.mem_cons_of_mem _)
      · exact List.mem_cons.mp h
      · rcases List.mem_cons.mp h with rfl | h
        · exact Or.inr List.mem_cons_self
        · exact (ih h).imp_right (List.mem_cons_of_mem _)

/-- Putting a member in keeps the keys in order. -/
lemma keysOrdered_insertMember {key : String} {value : Json} {sorted : List (String × Json)}
    (h : KeysOrdered sorted) : KeysOrdered (insertMember key value sorted) := by
  induction sorted with
  | nil => exact List.pairwise_singleton _ _
  | cons m rest ih =>
      obtain ⟨hm, hrest⟩ := List.pairwise_cons.mp h
      rw [insertMember]
      split_ifs with heq hlt
      · subst heq
        exact List.pairwise_cons.mpr ⟨hm, hrest⟩
      · refine List.pairwise_cons.mpr ⟨fun n hn => ?_, h⟩
        rcases List.mem_cons.mp hn with rfl | hn
        · exact hlt
        · exact hlt.trans (hm n hn)
      · have hgt : m.1 < key := lt_of_le_of_ne (not_lt.mp hlt) (Ne.symm heq)
        refine List.pairwise_cons.mpr ⟨fun n hn => ?_, ih hrest⟩
        rcases mem_insertMember hn with rfl | hn
        · exact hgt
        · exact hm n hn

lemma foldl_insertMember_of_ordered :
    ∀ {members sorted : List (String × Json)}, KeysOrdered (sorted ++ members) →
      members.foldl (fun sorted m => insertMember m.1 m.2 sorted) sorted = sorted ++ members
  | [], sorted, _ => by simp
  | m :: rest, sorted, h => by
      have hbelow : ∀ n ∈ sorted, n.1 < m.1 := fun n hn =>
        (List.pairwise_append.mp h).2.2 n hn m List.mem_cons_self
      rw [List.foldl_cons, insertMember_of_lt hbelow, foldl_insertMember_of_ordered,
        List.append_assoc, List.singleton_append]
      rwa [List.append_assoc, List.singleton_append]

/-- Members in order are left as they are. -/
lemma ofMembers_of_ordered {members : List (String × Json)} (h : KeysOrdered members) :
    ofMembers members = members :=
  @foldl_insertMember_of_ordered members [] h

/-- Whatever holds of no members and is kept by every member that is put in holds of the sorted
members. -/
lemma ofMembers_induct {P : List (String × Json) → Prop} {members : List (String × Json)}
    (nil : P []) (insert : ∀ m ∈ members, ∀ sorted, P sorted → P (insertMember m.1 m.2 sorted)) :
    P (ofMembers members) :=
  List.foldlRecOn members (fun sorted m => insertMember m.1 m.2 sorted) nil
    fun sorted h m hm => insert m hm sorted h

/-- **Sorted members are in order.** -/
lemma ordered_ofMembers (members : List (String × Json)) : KeysOrdered (ofMembers members) :=
  ofMembers_induct List.Pairwise.nil fun _ _ _ => keysOrdered_insertMember

lemma mem_of_mem_ofMembers {m : String × Json} {members : List (String × Json)}
    (h : m ∈ ofMembers members) : m ∈ members := by
  have hall : ∀ n ∈ ofMembers members, n ∈ members := by
    refine ofMembers_induct (P := fun sorted => ∀ n ∈ sorted, n ∈ members) ?_ ?_
    · simp
    · intro m hm sorted hsorted n hn
      rcases mem_insertMember hn with rfl | hn
      · exact hm
      · exact hsorted n hn
  exact hall m h

/-! ## Normal form -/

/-- **The value with the members of every object in order.** -/
def normal : Json → Json :=
  fold
    { null := .null
      bool := .bool
      num := .num
      str := .str
      arr := .arr
      obj := fun members => .obj (ofMembers members) }

lemma normal_arr (items : List Json) : normal (.arr items) = .arr (items.map normal) :=
  fold_arr _ items

lemma normal_obj (members : List (String × Json)) :
    normal (.obj members) = .obj (ofMembers (members.map fun m => (m.1, m.2.normal))) :=
  fold_obj _ members

/-- A value in order is its own normal form. -/
theorem normal_of_isOrdered {v : Json} (h : v.isOrdered = true) : v.normal = v := by
  induction v with
  | arr items ih =>
      rw [isOrdered_arr] at h
      rw [normal_arr, List.map_congr_left fun v hv => ih v hv (h v hv), List.map_id']
  | obj members ih =>
      rw [isOrdered_obj] at h
      have hmap : members.map (fun m => (m.1, m.2.normal)) = members := by
        conv_rhs => rw [← List.map_id' members]
        exact List.map_congr_left fun m hm => Prod.ext rfl (ih m hm (h.2 m hm))
      rw [normal_obj, hmap, ofMembers_of_ordered h.1]
  | _ => rfl

/-! ## Syntax trees -/

/-- **The syntax tree that a value is written as.** -/
def tree : Json → Tree :=
  fold
    { null := .null
      bool := .bool
      num := fun n => .num n.numeral
      str := fun s => .str (some s)
      arr := .arr
      obj := fun members => .obj (members.map fun m => (some m.1, m.2)) }

@[simp] lemma tree_null : tree .null = .null := rfl

@[simp] lemma tree_bool (b : Bool) : tree (.bool b) = .bool b := rfl

@[simp] lemma tree_num (n : Number) : tree (.num n) = .num n.numeral := rfl

@[simp] lemma tree_str (s : String) : tree (.str s) = .str (some s) := rfl

@[simp] lemma tree_arr (items : List Json) : tree (.arr items) = .arr (items.map tree) :=
  fold_arr _ items

@[simp] lemma tree_obj (members : List (String × Json)) :
    tree (.obj members) = .obj (members.map fun m => (some m.1, m.2.tree)) := by
  simp [tree, fold_obj, Function.comp_def]

end Json

end Microstep
