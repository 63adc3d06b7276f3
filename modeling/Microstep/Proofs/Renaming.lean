import Microstep.Proofs.Relabeling

/-!
# Lowering does not depend on how labels are spelled

Renaming the labels of a machine changes nothing but the labels in errors: the program is the same,
and so is the kind of an error, its address and its cause (`Machine.lower_rename`).  All that is
asked of the renaming is that it keeps apart the labels that occur in the machine, as ids or as
targets of jumps; what it does to other strings does not matter, and it may use labels that occur
already.

By `Machine.lower_mapIds` it is enough to look at the assignment of addresses.  Ids are met again
where they were met again before (`StateId.repeats_map`), and otherwise labels are not looked at:
numeric ids keep their numbers, and the others are packed in the same order
(`Placement.assign_rename`).
-/

namespace Microstep

variable {ρ τ : Type}

/-! ## Renaming -/

namespace StateId

/-- **The id with its label renamed**; a numeric id stays as it is. -/
def rename (f : String → String) : StateId → StateId
  | .numeric a => .numeric a
  | .symbolic l => .symbolic (f l)

/-- The label of a symbolic id. -/
def label? : StateId → Option String
  | .numeric _ => none
  | .symbolic l => some l

/-- Ids stay different if their labels do. -/
lemma rename_injOn {f : String → String} {ids : List StateId}
    (h : Set.InjOn f {l | l ∈ ids.filterMap label?}) : Set.InjOn (rename f) {id | id ∈ ids} := by
  intro x hx y hy hxy
  cases x with
  | numeric a =>
      cases y with
      | numeric b => exact hxy
      | symbolic l => cases hxy
  | symbolic l =>
      cases y with
      | numeric b => cases hxy
      | symbolic l' =>
          have hl : l ∈ ids.filterMap label? := List.mem_filterMap.mpr ⟨_, hx, rfl⟩
          have hl' : l' ∈ ids.filterMap label? := List.mem_filterMap.mpr ⟨_, hy, rfl⟩
          rw [h hl hl' (StateId.symbolic.inj hxy)]

end StateId

def LowerError.rename (f : String → String) : LowerError → LowerError :=
  LowerError.mapIds (StateId.rename f)

namespace Machine

/-- **The machine with its labels renamed**, as ids and wherever they are jumped to. -/
def rename (f : String → String) (m : Machine τ) : Machine τ := m.mapIds (StateId.rename f)

/-- **The labels that occur in a machine**, as ids of states or as targets of jumps. -/
def labels (m : Machine τ) : List String := (m.ids ++ m.targets).filterMap StateId.label?

end Machine

/-! ## Repeated ids -/

namespace StateId

lemma repeatsAfter_map {g : StateId → StateId} :
    ∀ {ids seen : List StateId}, Set.InjOn g {id | id ∈ seen ++ ids} →
      repeatsAfter (seen.map g) (ids.map g) = (repeatsAfter seen ids).map g
  | [], _, _ => rfl
  | id :: ids, seen, h => by
      have hmem : g id ∈ seen.map g ↔ id ∈ seen := by
        refine ⟨fun hid => ?_, List.mem_map_of_mem⟩
        obtain ⟨x, hx, heq⟩ := List.mem_map.mp hid
        have hxid : x = id := h (by simp [hx]) (by simp) heq
        rwa [← hxid]
      rw [List.map_cons, repeatsAfter, repeatsAfter]
      by_cases hid : id ∈ seen
      · have hrest : Set.InjOn g {x | x ∈ seen ++ ids} := h.mono fun x hx =>
          (List.mem_append.mp hx).elim (List.mem_append_left _)
            fun hx => List.mem_append_right _ (List.mem_cons_of_mem id hx)
        rw [if_pos (hmem.mpr hid), if_pos hid, List.map_cons, repeatsAfter_map hrest]
      · have hrest : Set.InjOn g {x | x ∈ (id :: seen) ++ ids} := h.mono fun x hx =>
          List.perm_middle.mem_iff.mpr hx
        rw [if_neg (mt hmem.mp hid), if_neg hid, ← List.map_cons, repeatsAfter_map hrest]

/-- **Ids are met again where they were met again before**, if different ids stay different. -/
lemma repeats_map {g : StateId → StateId} {ids : List StateId} (h : Set.InjOn g {id | id ∈ ids}) :
    repeats (ids.map g) = (repeats ids).map g :=
  @repeatsAfter_map g ids [] h

end StateId

/-! ## Addresses -/

namespace Placement

variable (f : String → String)

lemma next_rename (e : Extent) (start : Nat) :
    Lockstep (LowerError.rename f) Eq (e.next start)
      ((e.mapId (StateId.rename f)).next start) := by
  by_cases hfit : start + e.width + 1 < UInt32.size
  · simp [Extent.next, Extent.mapId, hfit, Lockstep]
  · simp [Extent.next, Extent.mapId, hfit, Lockstep, LowerError.rename, LowerError.mapIds]

lemma baseStep_rename (b : Nat) (e : Extent) :
    Lockstep (LowerError.rename f) Eq (baseStep b e)
      (baseStep b (e.mapId (StateId.rename f))) := by
  have hnext := next_rename f e
  rw [baseStep, baseStep]
  cases hid : e.id with
  | numeric a =>
      simp only [Extent.mapId, hid, StateId.rename] at hnext ⊢
      exact (hnext a.toNat).bind_pure fun _ _ h => by rw [h]
  | symbolic l =>
      simp only [Extent.mapId, hid, StateId.rename]
      exact rfl

lemma foldlM_baseStep_rename :
    ∀ (extents : List Extent) (b : Nat),
      Lockstep (LowerError.rename f) Eq (extents.foldlM baseStep b)
        ((extents.map (Extent.mapId (StateId.rename f))).foldlM baseStep b)
  | [], _ => rfl
  | e :: rest, b => by
      rw [List.map_cons, List.foldlM_cons, List.foldlM_cons]
      refine (baseStep_rename f b e).bind fun n n' _ hn => ?_
      rw [← hn]
      exact foldlM_baseStep_rename rest n

lemma base_rename (extents : List Extent) :
    Lockstep (LowerError.rename f) Eq (base extents)
      (base (extents.map (Extent.mapId (StateId.rename f)))) :=
  foldlM_baseStep_rename f extents 0

lemma pack_rename :
    ∀ (extents : List Extent) (cursor : Nat),
      Lockstep (LowerError.rename f) Eq (pack cursor extents)
        (pack cursor (extents.map (Extent.mapId (StateId.rename f))))
  | [], _ => rfl
  | e :: rest, cursor => by
      have hnext := next_rename f e cursor
      rw [List.map_cons, pack, pack]
      cases hid : e.id with
      | numeric a =>
          simp only [Extent.mapId, hid, StateId.rename]
          exact (pack_rename rest cursor).bind_pure fun _ _ h => by rw [h]
      | symbolic l =>
          simp only [Extent.mapId, hid, StateId.rename] at hnext ⊢
          refine hnext.bind fun n n' _ hn => ?_
          rw [← hn]
          exact (pack_rename rest n).bind_pure fun _ _ h => by rw [h]

/-- **Addresses do not depend on labels**, as long as different ids stay different. -/
theorem assign_rename {extents : List Extent}
    (h : Set.InjOn (StateId.rename f) {id | id ∈ extents.map Extent.id}) :
    Lockstep (LowerError.rename f) Eq (assign extents)
      (assign (extents.map (Extent.mapId (StateId.rename f)))) := by
  have hids : (extents.map (Extent.mapId (StateId.rename f))).map Extent.id
      = (extents.map Extent.id).map (StateId.rename f) := by
    rw [List.map_map, List.map_map]
    rfl
  rw [assign, assign, hids, StateId.repeats_map h]
  cases StateId.repeats (extents.map Extent.id) with
  | cons id rest => exact rfl
  | nil =>
      refine (base_rename f extents).bind fun n n' _ hn => ?_
      rw [← hn]
      exact pack_rename f extents n

end Placement

/-! ## Machines -/

namespace Machine

/-- **Lowering does not depend on how labels are spelled.**  If a renaming keeps apart the labels
that occur in a machine, the renamed machine is lowered to the same program, or fails with the same
error about renamed ids. -/
theorem lower_rename (scheme : RegisterScheme ρ) (m : Machine τ) {f : String → String}
    (h : Set.InjOn f {l | l ∈ m.labels}) :
    (m.rename f).lower scheme = (m.lower scheme).mapError (LowerError.rename f) := by
  have hinj := StateId.rename_injOn h
  refine (lower_mapIds scheme ?_ ?_).eq_mapError
  · exact hinj.mono fun id hid => List.mem_append.mpr hid
  · refine Placement.assign_rename f (hinj.mono fun id hid => List.mem_append_left _ ?_)
    rwa [map_id_extents] at hid

/-- Two labels trade places; all other strings become one of them. -/
def trade (l : String) : String := if l = "ping" then "pong" else "ping"

/-- Two states that jump to each other and to an address. -/
def rally : Machine Unit :=
  { timers := [()]
    states :=
      [ { id := .symbolic "ping"
          statements := [.increment "X" (.leaf (.literal 1))]
          transitions := [{ condition := some (.leaf (.name "X")), target := .symbolic "pong" }] },
        { id := .numeric 3, statements := [], transitions := [] },
        { id := .symbolic "pong"
          statements := []
          transitions :=
            [ { condition := none, target := .symbolic "ping" },
              { condition := none, target := .numeric 3 } ] } ] }

/-- One of the two is missing. -/
def lost : Machine Unit := { rally with states := rally.states.take 2 }

theorem lower_rename_rally :
    (∃ p, rally.lower RegisterScheme.free = .ok p
      ∧ (rally.rename trade).lower RegisterScheme.free = .ok p)
    ∧ (lost.rename trade).lower RegisterScheme.free
        = .error (.unresolvedLabel (.symbolic "ping") (.symbolic "pong")) := by
  have hrally : ∀ l ∈ rally.labels, ∀ l' ∈ rally.labels, trade l = trade l' → l = l' := by decide
  have hlost : ∀ l ∈ lost.labels, ∀ l' ∈ lost.labels, trade l = trade l' → l = l' := by decide
  have hlower : (rally.lower RegisterScheme.free).isOk = true := by cbv
  have hfail : lost.lower RegisterScheme.free
      = .error (.unresolvedLabel (.symbolic "pong") (.symbolic "ping")) := by cbv
  refine ⟨?_, ?_⟩
  · have hrename := lower_rename RegisterScheme.free rally (f := trade)
      fun l hl l' hl' => hrally l hl l' hl'
    cases h : rally.lower RegisterScheme.free with
    | error e =>
        rw [h] at hlower
        cases hlower
    | ok p =>
        rw [h] at hrename
        exact ⟨p, rfl, hrename⟩
  · rw [lower_rename RegisterScheme.free lost fun l hl l' hl' => hlost l hl l' hl', hfail]
    rfl

end Machine

end Microstep
