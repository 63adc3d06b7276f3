import Mathlib
import Microstep.Json.Tree

/-!
# Building a syntax tree undoes spelling it out

A syntax tree can be spelled out as a list of tokens (`Tree.tokens`), and building a tree from those
tokens gives it back (`Tree.ofTokens?_tokens`).  This holds for every tree: with any nesting, with
repeated keys, with strings that lack half a surrogate pair.

The builder is a fold with a stack, so what is shown by induction is how a whole tree moves it on:
from where a value is expected to where that value is complete, on any stack (`Builder.run_tokens`).
The elements of an array pile up in the topmost frame (`Builder.run_items`), and so do the members
of an object (`Builder.run_members`).
-/

namespace Microstep.Json

/-! ## Tokens of a tree -/

namespace Tree

/-- **Induction on syntax trees**, with the elements of arrays and the values of members at once. -/
@[elab_as_elim, induction_eliminator]
theorem induct {P : Tree → Prop} (null : P .null) (bool : ∀ b, P (.bool b)) (num : ∀ n, P (.num n))
    (str : ∀ s, P (.str s)) (arr : ∀ items, (∀ t ∈ items, P t) → P (.arr items))
    (obj : ∀ members, (∀ m ∈ members, P m.2) → P (.obj members)) (t : Tree) : P t :=
  @Tree.rec P (fun items => ∀ t ∈ items, P t) (fun members => ∀ m ∈ members, P m.2)
    (fun m => P m.2) null bool num str arr obj
    (fun _ h => nomatch h)
    (fun _ _ ht hts => List.forall_mem_cons.mpr ⟨ht, hts⟩)
    (fun _ h => nomatch h)
    (fun _ _ hm hms => List.forall_mem_cons.mpr ⟨hm, hms⟩)
    (fun _ _ ht => ht) t

mutual

/-- **The tokens of a tree.** -/
def tokens : Tree → List Token
  | .null => [.null]
  | .bool b => [.bool b]
  | .num n => [.num n]
  | .str s => [.str s]
  | .arr items => .arrayOpen :: [.comma].intercalate (itemTokens items) ++ [.arrayClose]
  | .obj members => .objectOpen :: [.comma].intercalate (memberTokens members) ++ [.objectClose]

/-- The tokens of the elements of an array. -/
def itemTokens : List Tree → List (List Token)
  | [] => []
  | t :: ts => t.tokens :: itemTokens ts

/-- The tokens of the members of an object. -/
def memberTokens : List (Option String × Tree) → List (List Token)
  | [] => []
  | (k, t) :: ms => (.str k :: .colon :: t.tokens) :: memberTokens ms

end

lemma itemTokens_eq_map (items : List Tree) : itemTokens items = items.map tokens := by
  induction items with
  | nil => rfl
  | cons t ts ih => rw [itemTokens, ih, List.map_cons]

/-- The tokens of a member. -/
def tokensOfMember (m : Option String × Tree) : List Token := .str m.1 :: .colon :: m.2.tokens

lemma memberTokens_eq_map (members : List (Option String × Tree)) :
    memberTokens members = members.map tokensOfMember := by
  induction members with
  | nil => rfl
  | cons m ms ih => rw [memberTokens, ih, List.map_cons, tokensOfMember]

lemma tokens_arr (items : List Tree) :
    (Tree.arr items).tokens
      = .arrayOpen :: ([.comma].intercalate (items.map tokens) ++ [.arrayClose]) := by
  rw [tokens, itemTokens_eq_map, List.cons_append]

lemma tokens_obj (members : List (Option String × Tree)) :
    (Tree.obj members).tokens
      = .objectOpen :: ([.comma].intercalate (members.map tokensOfMember) ++ [.objectClose]) := by
  rw [tokens, memberTokens_eq_map, List.cons_append]

/-- A tree does not start with the end of an array. -/
lemma exists_tokens_eq_cons (t : Tree) : ∃ first rest, t.tokens = first :: rest
    ∧ first ≠ .arrayClose := by
  cases t with
  | arr items => exact ⟨_, _, tokens_arr items, nofun⟩
  | obj members => exact ⟨_, _, tokens_obj members, nofun⟩
  | _ => exact ⟨_, _, rfl, nofun⟩

end Tree

/-! ## Running the builder -/

namespace Builder

/-- The builder after some tokens. -/
abbrev run (b : Builder) (tokens : List Token) : Option Builder := tokens.foldlM step b

lemma run_cons {b b' : Builder} {t : Token} (h : b.step t = some b') (tokens : List Token) :
    b.run (t :: tokens) = b'.run tokens := by
  simp [run, h]

lemma run_append {b b' : Builder} {tokens : List Token} (h : b.run tokens = some b')
    (more : List Token) : b.run (tokens ++ more) = b'.run more := by
  simp only [run] at h
  simp [run, List.foldlM_append, h]

/-- The first element of an array is a value of the array, unless the array ends. -/
lemma run_item {first : Token} (h : first ≠ .arrayClose) (stack : List Frame)
    (rest : List Token) :
    (Builder.item stack).run (first :: rest)
      = (Builder.value (.array [] :: stack)).run (first :: rest) := by
  have hstep : (Builder.item stack).step first = (Builder.value (.array [] :: stack)).step first := by
    cases first with
    | arrayClose => exact absurd rfl h
    | _ => rfl
  simp [run, hstep]

/-- A tree takes the builder from where a value is expected to where it is complete. -/
def Builds (t : Tree) : Prop :=
  ∀ stack, (Builder.value stack).run t.tokens = some (.done t stack)

/-- **The elements of an array**, behind those that are already there. -/
lemma run_items (stack : List Frame) :
    ∀ (t : Tree) (items front : List Tree), (∀ u ∈ t :: items, Builds u) →
      (Builder.value (.array front :: stack)).run
          ([.comma].intercalate ((t :: items).map Tree.tokens) ++ [.arrayClose])
        = some (.done (.arr (front.reverse ++ t :: items)) stack)
  | t, [], front, h => by
      rw [List.map_singleton, List.intercalate_singleton,
        run_append (h t List.mem_cons_self (.array front :: stack))]
      simp [run, step]
  | t, u :: items, front, h => by
      have hrest := run_items stack u items (t :: front) fun v hv =>
        h v (List.mem_cons_of_mem t hv)
      rw [List.map_cons, List.map_cons, List.intercalate_cons_cons, List.append_assoc,
        List.append_assoc, run_append (h t List.mem_cons_self (.array front :: stack)),
        List.singleton_append, run_cons rfl, ← List.map_cons, hrest, List.reverse_cons,
        List.append_assoc, List.singleton_append]

/-- **The members of an object**, behind those that are already there. -/
lemma run_members (stack : List Frame) :
    ∀ (m : Option String × Tree) (members front : List (Option String × Tree)),
      (∀ n ∈ m :: members, Builds n.2) →
      (Builder.key front stack).run
          ([.comma].intercalate ((m :: members).map Tree.tokensOfMember) ++ [.objectClose])
        = some (.done (.obj (front.reverse ++ m :: members)) stack)
  | m, [], front, h => by
      rw [List.map_singleton, List.intercalate_singleton, Tree.tokensOfMember, List.cons_append,
        List.cons_append, run_cons rfl, run_cons rfl,
        run_append (h m List.mem_cons_self (.member front m.1 :: stack))]
      simp [run, step]
  | m, n :: members, front, h => by
      have hrest := run_members stack n members (m :: front) fun v hv =>
        h v (List.mem_cons_of_mem m hv)
      rw [List.map_cons, List.map_cons, List.intercalate_cons_cons, List.append_assoc,
        List.append_assoc, Tree.tokensOfMember, List.cons_append, List.cons_append, run_cons rfl,
        run_cons rfl, run_append (h m List.mem_cons_self (.member front m.1 :: stack)),
        List.singleton_append, run_cons rfl, ← List.map_cons, hrest, List.reverse_cons,
        List.append_assoc, List.singleton_append]

/-- **A whole tree moves the builder on by one value**, whatever is still open. -/
theorem run_tokens (t : Tree) : Builds t := by
  induction t with
  | arr items ih =>
      intro stack
      have hopen : (Builder.value stack).step .arrayOpen = some (.item stack) := rfl
      rw [Tree.tokens_arr, run_cons hopen]
      cases items with
      | nil => rfl
      | cons t items =>
          have hitems := run_items stack t items [] ih
          obtain ⟨first, rest, htokens, hfirst⟩ := t.exists_tokens_eq_cons
          rw [List.map_cons, htokens, List.intercalate_cons_cons_left, List.cons_append]
            at hitems ⊢
          rw [run_item hfirst]
          exact hitems
  | obj members ih =>
      intro stack
      have hopen : (Builder.value stack).step .objectOpen = some (.firstKey stack) := rfl
      rw [Tree.tokens_obj, run_cons hopen]
      cases members with
      | nil => rfl
      | cons m members =>
          have hmembers := run_members stack m members [] ih
          rw [List.map_cons, Tree.tokensOfMember, List.intercalate_cons_cons_left,
            List.cons_append, run_cons rfl] at hmembers ⊢
          exact hmembers
  | _ => exact fun stack => rfl

end Builder

/-- **Building a tree from its tokens gives the tree.** -/
theorem Tree.ofTokens?_tokens (t : Tree) : ofTokens? t.tokens = some t := by
  have h : t.tokens.foldlM Builder.step (.value []) = some (.done t []) := Builder.run_tokens t []
  simp [ofTokens?, h, Builder.finish]

end Microstep.Json
