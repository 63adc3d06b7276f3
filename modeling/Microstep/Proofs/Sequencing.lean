import Mathlib

/-!
# Passes that stop at the first fault

The lowering is a sequence of passes over lists, each of which stops at the first fault it meets.
Three views of such passes are used throughout.

**Success.**  `bind_eq_ok_iff` and `mapM_eq_ok_iff` take a pass that came through apart into its
steps; `mapM_eq_ite` does so where there is one way to fail.

**Failure.**  `FailsFirst x faults` says that `x` fails with the first fault of a list, and comes
through if the list is empty.  The list may go on after its first fault, so it can be written down
without knowing where the pass stops: faults of consecutive passes are appended
(`FailsFirst.bind`), and faults over a list are collected by `flatMap` (`FailsFirst.mapM`).

**Comparison.**  `Lockstep g R x x'` says that two passes do the same thing: both come through, with
results related by `R`, or both fail, with faults related by `g`.  It is kept by whatever passes are
put together with, so what has to be compared are single steps.
-/

namespace Microstep

variable {ε ε' α α' β β' : Type}

/-! ## Passes that come through -/

lemma bind_eq_ok_iff {x : Except ε α} {f : α → Except ε β} {b : β} :
    (x >>= f) = .ok b ↔ ∃ a, x = .ok a ∧ f a = .ok b := by
  cases x <;> simp [bind, Except.bind]

lemma map_eq_ok_iff {x : Except ε α} {f : α → β} {b : β} :
    f <$> x = .ok b ↔ ∃ a, x = .ok a ∧ f a = b := by
  cases x <;> simp [Functor.map, Except.map]

/-- A pass over a list comes through exactly when it does at every element. -/
lemma mapM_eq_ok_iff {f : α → Except ε β} :
    ∀ {l : List α} {r : List β},
      l.mapM f = .ok r ↔ List.Forall₂ (fun a b => f a = .ok b) l r
  | [], r => by
      simp only [List.mapM_nil, List.forall₂_nil_left_iff]
      exact ⟨fun h => (Except.ok.inj h).symm, fun h => by rw [h]; rfl⟩
  | a :: l, r => by
      simp only [List.mapM_cons, bind_eq_ok_iff, List.forall₂_cons_left_iff, mapM_eq_ok_iff]
      constructor
      · rintro ⟨b, hb, bs, hbs, h⟩
        exact ⟨b, bs, hb, hbs, (Except.ok.inj h).symm⟩
      · rintro ⟨b, bs, hb, hbs, rfl⟩
        exact ⟨b, hb, bs, hbs, rfl⟩

/-- What corresponds to the element at an index. -/
lemma forall₂_getElem? {R : α → β → Prop} {l : List α} {r : List β} (h : List.Forall₂ R l r) :
    ∀ {k : Nat} {a : α}, l[k]? = some a → ∃ b, r[k]? = some b ∧ R a b := by
  induction h with
  | nil =>
      intro k a ha
      simp at ha
  | cons hab _ ih =>
      intro k a ha
      cases k with
      | zero =>
          cases ha
          exact ⟨_, rfl, hab⟩
      | succ k => exact ih ha

/-- What an element at an index corresponds to. -/
lemma forall₂_getElem?_right {R : α → β → Prop} {l : List α} {r : List β}
    (h : List.Forall₂ R l r) {k : Nat} {b : β} (hb : r[k]? = some b) :
    ∃ a, l[k]? = some a ∧ R a b :=
  forall₂_getElem? h.flip hb

/-- What a member corresponds to. -/
lemma exists_of_forall₂_right {R : α → β → Prop} {l : List α} {r : List β}
    (h : List.Forall₂ R l r) {b : β} (hb : b ∈ r) : ∃ a ∈ l, R a b := by
  obtain ⟨k, hk⟩ := List.mem_iff_getElem?.mp hb
  obtain ⟨a, ha, hab⟩ := forall₂_getElem?_right h hk
  exact ⟨a, List.mem_of_getElem? ha, hab⟩

/-- A pass over a list that can fail in one way only comes through if all its steps do, and fails in
that way otherwise. -/
lemma mapM_eq_ite {f : α → Except ε β} {g : α → β} {e : ε} {p : α → Prop} [DecidablePred p]
    {l : List α} (h : ∀ a ∈ l, f a = if p a then .ok (g a) else .error e) :
    l.mapM f = if ∀ a ∈ l, p a then .ok (l.map g) else .error e := by
  induction l with
  | nil =>
      rw [if_pos (by simp)]
      rfl
  | cons a l ih =>
      obtain ⟨ha, hl⟩ := List.forall_mem_cons.mp h
      rw [List.mapM_cons, ha, ih hl]
      simp only [List.forall_mem_cons]
      by_cases hp : p a
      · simp only [hp, true_and, if_true]
        split_ifs <;> rfl
      · simp only [hp, false_and, if_false]
        rfl

/-! ## Passes that fail -/

/-- **The first fault counts.**  `x` fails with the first of `faults`, and comes through if there
are none. -/
def FailsFirst (x : Except ε α) : List ε → Prop
  | [] => ∃ a, x = .ok a
  | e :: _ => x = .error e

namespace FailsFirst

lemma of_ok (a : α) : FailsFirst (.ok a : Except ε α) [] := ⟨a, rfl⟩

/-- What comes through has no faults. -/
lemma eq_nil {x : Except ε α} {faults : List ε} (h : FailsFirst x faults) {a : α}
    (hx : x = .ok a) : faults = [] := by
  cases faults with
  | nil => rfl
  | cons e rest =>
      have he : x = .error e := h
      rw [hx] at he
      cases he

/-- A fault that is raised is the first one. -/
lemma head?_eq {x : Except ε α} {faults : List ε} (h : FailsFirst x faults) {e : ε}
    (hx : x = .error e) : faults.head? = some e := by
  cases faults with
  | nil =>
      obtain ⟨a, ha⟩ := h
      rw [ha] at hx
      cases hx
  | cons e' rest =>
      have he : x = .error e' := h
      rw [hx] at he
      cases he
      rfl

/-- The first fault is raised. -/
lemma eq_error {x : Except ε α} {faults : List ε} (h : FailsFirst x faults) {e : ε}
    (he : faults.head? = some e) : x = .error e := by
  cases faults with
  | nil => cases he
  | cons e' rest =>
      cases he
      exact h

/-- Only the first fault matters. -/
lemma congr {x : Except ε α} {faults faults' : List ε} (h : FailsFirst x faults)
    (he : faults.head? = faults'.head?) : FailsFirst x faults' := by
  cases faults' with
  | nil =>
      rw [List.head?_nil, List.head?_eq_none_iff] at he
      rw [he] at h
      exact h
  | cons e rest => exact h.eq_error he

/-- The faults of one pass come before those of the next. -/
lemma bind {x : Except ε α} {f : α → Except ε β} {faults later : List ε}
    (hx : FailsFirst x faults) (hf : ∀ a, x = .ok a → FailsFirst (f a) later) :
    FailsFirst (x >>= f) (faults ++ later) := by
  cases faults with
  | nil =>
      obtain ⟨a, ha⟩ := hx
      rw [ha]
      exact hf a ha
  | cons e rest =>
      have he : x = .error e := hx
      rw [he]
      exact rfl

/-- Handing on the result adds no fault. -/
lemma bind_pure {x : Except ε α} {f : α → β} {faults : List ε} (hx : FailsFirst x faults) :
    FailsFirst (x >>= fun a => pure (f a)) faults := by
  have h : FailsFirst (x >>= fun a => pure (f a)) (faults ++ []) :=
    hx.bind fun a _ => of_ok (f a)
  rwa [List.append_nil] at h

/-- The faults over a list are those of its elements, in order. -/
lemma mapM {f : α → Except ε β} {faults : α → List ε} :
    ∀ {l : List α}, (∀ a ∈ l, FailsFirst (f a) (faults a)) →
      FailsFirst (l.mapM f) (l.flatMap faults)
  | [], _ => of_ok []
  | a :: l, h => by
      rw [List.mapM_cons, List.flatMap_cons]
      refine (h a List.mem_cons_self).bind fun b _ => ?_
      exact (mapM fun a' ha' => h a' (List.mem_cons_of_mem a ha')).bind_pure

end FailsFirst

/-! ## Passes that do the same thing -/

/-- **Two passes in lockstep.**  Both come through, with results that are related, or both fail, the
second with what `g` makes of the fault of the first. -/
def Lockstep (g : ε → ε') (R : α → α' → Prop) : Except ε α → Except ε' α' → Prop
  | .ok a, .ok a' => R a a'
  | .error e, .error e' => e' = g e
  | .ok _, .error _ => False
  | .error _, .ok _ => False

namespace Lockstep

variable {g : ε → ε'} {R : α → α' → Prop} {S : β → β' → Prop}

/-- A pass is in lockstep with itself. -/
lemma refl (x : Except ε α) : Lockstep (fun e => e) Eq x x := by
  cases x <;> exact rfl

lemma mono {R' : α → α' → Prop} {x : Except ε α} {x' : Except ε' α'} (h : Lockstep g R x x')
    (hR : ∀ a a', R a a' → R' a a') : Lockstep g R' x x' := by
  cases x <;> cases x' <;> simp_all [Lockstep]

/-- A pass is told by the other one if related results are the same. -/
lemma eq_mapError {x : Except ε α} {x' : Except ε' α} (h : Lockstep g Eq x x') :
    x' = x.mapError g := by
  cases x <;> cases x' <;> simp_all [Lockstep, Except.mapError]

/-- The case in which faults are the same. -/
lemma eq_map {f : α → α'} {x : Except ε α} {x' : Except ε α'}
    (h : Lockstep (fun e => e) (fun a a' => a' = f a) x x') : x' = f <$> x := by
  cases x <;> cases x' <;> simp_all [Lockstep]

/-- Passes that go on in lockstep. -/
lemma bind {x : Except ε α} {x' : Except ε' α'} {k : α → Except ε β} {k' : α' → Except ε' β'}
    (h : Lockstep g R x x') (hk : ∀ a a', x = .ok a → R a a' → Lockstep g S (k a) (k' a')) :
    Lockstep g S (x >>= k) (x' >>= k') := by
  cases x with
  | ok a =>
      cases x' with
      | ok a' => exact hk a a' rfl h
      | error e' => exact h.elim
  | error e =>
      cases x' with
      | ok a' => exact h.elim
      | error e' => exact h

/-- Handing on the results keeps passes in lockstep. -/
lemma bind_pure {x : Except ε α} {x' : Except ε' α'} {f : α → β} {f' : α' → β'}
    (h : Lockstep g R x x') (hf : ∀ a a', R a a' → S (f a) (f' a')) :
    Lockstep g S (x >>= fun a => pure (f a)) (x' >>= fun a => pure (f' a)) :=
  h.bind fun a a' _ ha => hf a a' ha

/-- Passes over two lists are in lockstep if they are at every element. -/
lemma mapM {k : α → Except ε β} {k' : α' → Except ε' β'} {j : α → α'} :
    ∀ {l : List α}, (∀ a ∈ l, Lockstep g S (k a) (k' (j a))) →
      Lockstep g (List.Forall₂ S) (l.mapM k) ((l.map j).mapM k')
  | [], _ => List.Forall₂.nil
  | a :: l, h => by
      rw [List.map_cons, List.mapM_cons, List.mapM_cons]
      refine (h a List.mem_cons_self).bind fun b b' _ hb => ?_
      have hrest := mapM fun c hc => h c (List.mem_cons_of_mem a hc)
      exact hrest.bind_pure fun _ _ hbs => List.Forall₂.cons hb hbs

/-- The case in which every element is treated alike. -/
lemma mapM_eq {k : α → Except ε β} {k' : α' → Except ε' β} {j : α → α'} {l : List α}
    (h : ∀ a ∈ l, Lockstep g Eq (k a) (k' (j a))) :
    Lockstep g Eq (l.mapM k) ((l.map j).mapM k') := by
  refine (mapM h).mono fun bs bs' hbs => ?_
  rwa [List.forall₂_eq_eq_eq] at hbs

/-- The case in which what comes of an element is changed by `f`. -/
lemma mapM_map {k : α → Except ε β} {k' : α' → Except ε' β'} {j : α → α'} {f : β → β'}
    {l : List α} (h : ∀ a ∈ l, Lockstep g (fun b b' => b' = f b) (k a) (k' (j a))) :
    Lockstep g (fun bs bs' => bs' = bs.map f) (l.mapM k) ((l.map j).mapM k') := by
  refine (mapM h).mono fun bs bs' hbs => ?_
  rw [← List.forall₂_eq_eq_eq, List.forall₂_map_right_iff]
  exact hbs.flip.imp fun _ _ hb => hb

end Lockstep

end Microstep
