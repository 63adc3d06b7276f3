import Microstep.Proofs.Json.Forms

/-!
# Levels only stop a reader

A reader is told how many levels of arrays and objects may still be entered.  It uses that number
for one thing only, which is to stop where the levels run out.  So what is read with some levels is
read as the same with more of them, and also with fewer as long as the tree has no more than that
(`Reader.Steady`).  There is a rule for each way of putting readers together.

The depth of a tree counts all of its levels (`Tree.depth`), also those inside of unknown members
that no reader enters.
-/

namespace Microstep.Json

/-! ## Depth -/

namespace Tree

mutual

/-- **How deeply a tree is nested**: how many arrays and objects stand inside each other. -/
def depth : Tree → Nat
  | .null => 0
  | .bool _ => 0
  | .num _ => 0
  | .str _ => 0
  | .arr items => itemDepth items + 1
  | .obj members => memberDepth members + 1

/-- How deeply the elements of an array are nested. -/
def itemDepth : List Tree → Nat
  | [] => 0
  | t :: ts => max t.depth (itemDepth ts)

/-- How deeply the members of an object are nested. -/
def memberDepth : List (Option String × Tree) → Nat
  | [] => 0
  | (_, t) :: ms => max t.depth (memberDepth ms)

end

lemma le_itemDepth {t : Tree} {items : List Tree} (h : t ∈ items) : t.depth ≤ itemDepth items := by
  induction items with
  | nil => cases h
  | cons u items ih =>
      rw [itemDepth]
      rcases List.mem_cons.mp h with rfl | h
      · exact le_max_left _ _
      · exact (ih h).trans (le_max_right _ _)

lemma le_memberDepth {m : Option String × Tree} {members : List (Option String × Tree)}
    (h : m ∈ members) : m.2.depth ≤ memberDepth members := by
  induction members with
  | nil => cases h
  | cons n members ih =>
      rw [memberDepth]
      rcases List.mem_cons.mp h with rfl | h
      · exact le_max_left _ _
      · exact (ih h).trans (le_max_right _ _)

lemma depth_lt_arr {t : Tree} {items : List Tree} (h : t ∈ items) : t.depth < depth (.arr items) :=
  Nat.lt_succ_of_le (le_itemDepth h)

lemma depth_lt_obj {m : Option String × Tree} {members : List (Option String × Tree)}
    (h : m ∈ members) : m.2.depth < depth (.obj members) :=
  Nat.lt_succ_of_le (le_memberDepth h)

/-- There are levels left in an array or object that can be entered, and still enough of them for
what stands in it. -/
lemma exists_level {n d : Nat} {t : Tree} (henough : n + 1 ≤ d ∨ t.depth ≤ d) (ht : 0 < t.depth) :
    ∃ n', d = n' + 1 ∧ ∀ u : Tree, u.depth < t.depth → n ≤ n' ∨ u.depth ≤ n' :=
  ⟨d - 1, by omega, fun u hu => by omega⟩

end Tree

/-! ## Steady readers -/

/-- What `f` makes of the elements, `g` makes of them too, if it does so one by one. -/
lemma mapM_eq_ok_of_forall {ε α β : Type} {f g : α → Except ε β} {l : List α} {bs : List β}
    (h : ∀ a ∈ l, ∀ b, f a = .ok b → g a = .ok b) (hl : l.mapM f = .ok bs) :
    l.mapM g = .ok bs := by
  induction l generalizing bs with
  | nil => exact hl
  | cons a l ih =>
      obtain ⟨hhead, htail⟩ := List.forall_mem_cons.mp h
      simp only [List.mapM_cons, bind_eq_ok_iff] at hl ⊢
      obtain ⟨b, hb, bs, hbs, h⟩ := hl
      exact ⟨b, hhead b hb, bs, ih htail hbs, h⟩

namespace Reader

variable {α β : Type} {r : Reader α} {t : Tree}

/-- What is read from the tree `t` is read with more levels, and with as many as `t` has. -/
def SteadyAt (r : Reader α) (t : Tree) : Prop :=
  ∀ d d' a, r d t = .ok a → d ≤ d' ∨ t.depth ≤ d' → r d' t = .ok a

/-- **Levels only stop the reader.** -/
def Steady (r : Reader α) : Prop := ∀ t, r.SteadyAt t

/-- A reader that does not enter anything does not ask for levels. -/
lemma steady_of_eq (h : ∀ d d' t, r d t = r d' t) : r.Steady :=
  fun t d d' _ ha _ => (h d' d t).trans ha

lemma Steady.map (h : r.Steady) (f : α → β) : (r.map f).Steady := by
  intro t d d' b hb henough
  obtain ⟨a, ha, rfl⟩ := map_eq_ok_iff.mp hb
  exact map_eq_ok_iff.mpr ⟨a, h t d d' a ha henough, rfl⟩

lemma steady_bool : bool.Steady := steady_of_eq fun _ _ t => by cases t <;> rfl

lemma steady_string : string.Steady := steady_of_eq fun _ _ t => by cases t <;> rfl

lemma steady_integer (low high : Int) : (integer low high).Steady :=
  steady_of_eq fun _ _ t => by cases t <;> rfl

lemma steady_int64 : int64.Steady := (steady_integer _ _).map _

lemma steady_uint32 : uint32.Steady := (steady_integer _ _).map _

lemma Steady.optional (h : r.Steady) : (optional r).Steady := by
  intro t d d' o ho henough
  cases t with
  | null => exact ho
  | _ => exact h.map some _ d d' o ho henough

/-- The elements of an array are read with the levels that are left in it. -/
lemma list_succ (r : Reader α) (n : Nat) (t : Tree) :
    list r (n + 1) t = list (fun _ => r n) (n + 1) t := by
  cases t <;> rfl

lemma list_eq_ok_iff {d : Nat} {as : List α} :
    list r d t = .ok as ↔ ∃ n items, d = n + 1 ∧ t = .arr items ∧ items.mapM (r n) = .ok as := by
  cases t with
  | arr items =>
      cases d with
      | zero => simp [list]
      | succ n => simp [list]
  | _ => simp [list]

lemma Steady.list (h : r.Steady) : (list r).Steady := by
  intro t d d' as has henough
  obtain ⟨n, items, rfl, rfl, hitems⟩ := list_eq_ok_iff.mp has
  obtain ⟨n', rfl, hleft⟩ := Tree.exists_level henough (Nat.succ_pos _)
  refine list_eq_ok_iff.mpr ⟨n', items, rfl, rfl, mapM_eq_ok_of_forall (fun u hu a ha => ?_) hitems⟩
  exact h u n n' a ha (hleft u (Tree.depth_lt_arr hu))

end Reader

namespace Tree

/-- **Levels only stop the reading of a whole tree.** -/
lemma steady_value : Reader.Steady value := by
  intro t
  induction t with
  | arr items ih =>
      intro d d' v hv henough
      obtain _ | n := d
      · simp [value] at hv
      · obtain ⟨n', rfl, hleft⟩ := exists_level henough (Nat.succ_pos _)
        simp only [value, bind_eq_ok_iff] at hv ⊢
        obtain ⟨values, hvalues, h⟩ := hv
        refine ⟨values, mapM_eq_ok_of_forall (fun u hu w hw => ?_) hvalues, h⟩
        exact ih u hu n n' w hw (hleft u (depth_lt_arr hu))
  | obj members ih =>
      intro d d' v hv henough
      obtain _ | n := d
      · simp [value] at hv
      · obtain ⟨n', rfl, hleft⟩ := exists_level henough (Nat.succ_pos _)
        simp only [value, bind_eq_ok_iff] at hv ⊢
        obtain ⟨values, hvalues, h⟩ := hv
        refine ⟨values, mapM_eq_ok_of_forall (fun m hm w hw => ?_) hvalues, h⟩
        obtain ⟨key, hkey, w', hw', hpair⟩ := by simpa only [bind_eq_ok_iff] using hw
        refine bind_eq_ok_iff.mpr ⟨key, hkey, bind_eq_ok_iff.mpr ⟨w', ?_, hpair⟩⟩
        exact ih m hm n n' w' hw' (hleft m.2 (depth_lt_obj hm))
  | _ =>
      intro d d' v hv _
      rw [value] at hv ⊢
      exact hv

lemma Sound.of_enough {d d' : Nat} {t : Tree} (h : t.Sound d) (henough : d ≤ d' ∨ t.depth ≤ d') :
    t.Sound d' := by
  obtain ⟨v, hv⟩ := h
  exact ⟨v, steady_value t d d' v hv henough⟩

end Tree

namespace Reader

/-- A type with several forms is as steady as they are, if they exclude each other. -/
lemma steadyAt_choice {α : Type} {type : String} {forms : List (Reader α)} {t : Tree}
    (hexcludes : forms.Pairwise Excludes) (h : ∀ r ∈ forms, r.SteadyAt t) :
    (choice type forms).SteadyAt t := by
  intro d d' a ha henough
  obtain ⟨hsound, r, hr, hra⟩ := (choice_eq_ok_iff hexcludes).mp ha
  exact (choice_eq_ok_iff hexcludes).mpr
    ⟨hsound.of_enough henough, r, hr, h r hr d d' a hra henough⟩

end Reader

/-! ## Steady records -/

namespace Shape

variable {F α : Type} {s : Shape F}

/-- The slots hold the same with other levels left. -/
lemma Slots.Hold.of_enough {slots : s.Slots} {n n' : Nat} {part : F → Option Tree}
    (h : slots.Hold n part)
    (hsteady : ∀ f, ∀ u ∈ part f, (s.read f).SteadyAt u ∧ (n ≤ n' ∨ u.depth ≤ n')) :
    slots.Hold n' part := by
  refine fun f => ⟨(h f).1, fun u hu => ?_⟩
  obtain ⟨v, hv, hslot⟩ := (h f).2 u hu
  obtain ⟨hread, henough⟩ := hsteady f u hu
  exact ⟨v, hread n n' v hv henough, hslot⟩

variable [DecidableEq F]

/-- A part is nested less deeply than the whole. -/
lemma depth_lt_of_part? {f : F} {t u : Tree} (h : s.part? f t = some u) : u.depth < t.depth := by
  cases t with
  | obj members => exact Tree.depth_lt_obj (mem_of_member? h)
  | arr items =>
      obtain ⟨front, back, hzip, -⟩ := List.lookup_eq_some_iff.mp h
      have hmem : (f, u) ∈ s.fields.zip items := by simp [hzip]
      exact Tree.depth_lt_arr (List.of_mem_zip hmem).2
  | _ => cases h

omit [DecidableEq F] in
lemma depth_pos_of_fits {t : Tree} (h : s.Fits t) : 0 < t.depth := by
  cases t with
  | obj members => exact Nat.succ_pos _
  | arr items => exact Nat.succ_pos _
  | _ => exact h.elim

lemma Reads.of_enough {made : s.Slots → α → Prop} {d d' : Nat} {t : Tree} {a : α}
    (h : s.Reads made d t a) (hsteady : ∀ f, ∀ u ∈ s.part? f t, (s.read f).SteadyAt u)
    (henough : d ≤ d' ∨ t.depth ≤ d') : s.Reads made d' t a := by
  obtain ⟨n, rfl, hfits, slots, hhold, hmade⟩ := h
  obtain ⟨n', rfl, hleft⟩ := Tree.exists_level henough (depth_pos_of_fits hfits)
  refine ⟨n', rfl, hfits, slots, hhold.of_enough fun f u hu => ?_, hmade⟩
  exact ⟨hsteady f u hu, hleft u (depth_lt_of_part? hu)⟩

/-- **A record is as steady as its fields are.** -/
lemma IsRecord.steady {made : s.Slots → α → Prop} {r : Reader α} (h : s.IsRecord made r)
    (hsteady : ∀ f, (s.read f).Steady) : r.Steady := by
  intro t d d' a ha henough
  rw [h.eq_ok_iff] at ha ⊢
  exact ha.of_enough (fun f u _ => hsteady f u) henough

end Shape

end Microstep.Json
