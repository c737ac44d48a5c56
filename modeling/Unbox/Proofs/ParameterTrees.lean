import Mathlib.Data.List.Forall2
import Unbox.Draft.Tree
import Unbox.Proofs.Construction

/-!
# Parameters as they stand in a tree

In a tidy program the parameters of a declaration come after it in the table, so that going down into
functional parameters comes to an end, and what is built shows the recorded lists as they are.

* `Program.Mirrors q node` : `node` shows the parameter `q`, with the lists of a functional one shown in
  the same way;
* `Tidy.mirrors_iff` : what shows the parameter lists of a declaration is what is built for it;
* `Tidy.parametersTo_eq` : to go deeper than there are declarations left changes nothing.
-/

namespace Unbox.Program
variable {p : Program} {d q : DeclId}

/-- The parameter lists that are recorded for `d`. -/
def listsOf (p : Program) (d : DeclId) : List (List DeclId) :=
  ((p.decl? d).map Declaration.parameterLists).getD []

/-- How a parameter stands in a tree, without a default value. -/
inductive Mirrors (p : Program) : DeclId → Parameter → Prop where
  | value {q : DeclId} : (∀ x ∈ p.decl? q, x.isMethod = false) → Mirrors p q (.value q none)
  | functional {q : DeclId} {x : Declaration} {lists : List (List Parameter)} : x ∈ p.decl? q →
      x.isMethod = true → List.Forall₂ (List.Forall₂ (Mirrors p)) x.parameterLists lists →
      Mirrors p q (.functional q none lists)

theorem listsOf_of_decl? {x : Declaration} (h : x ∈ p.decl? d) : p.listsOf d = x.parameterLists := by
  rw [listsOf, Option.mem_def.mp h]
  rfl

/-- How a parameter is built when its own parameters are built to the given depth. -/
def parameterTo (p : Program) (depth : Nat) (q : DeclId) : Parameter :=
  if (p.decl? q).any Declaration.isMethod then .functional q none (p.parametersTo depth q)
  else .value q none

theorem parametersTo_succ (depth : Nat) (d : DeclId) :
    p.parametersTo (depth + 1) d = (p.listsOf d).map (List.map (p.parameterTo depth)) := by
  rw [parametersTo, listsOf]
  cases p.decl? d <;> rfl

/-- The parameters of a declaration that has any come after it. -/
theorem Tidy.index_lt (hp : p.Tidy) (hq : q ∈ (p.listsOf d).flatten) :
    d.index < q.index ∧ d.index < p.decls.size := by
  cases hx : p.decl? d with
  | none =>
    rw [listsOf, hx] at hq
    cases hq
  | some x =>
    rw [listsOf_of_decl? hx] at hq
    obtain ⟨_, _, -, -, hlt⟩ := hp.parameters d x hx q hq
    exact ⟨hlt, hasDecl_iff.mp (hasDecl_of_decl? hx)⟩

theorem forall₂_iff_eq_map {α β : Type} {R : α → β → Prop} {f : α → β} {as : List α} {bs : List β}
    (h : ∀ a ∈ as, ∀ b, R a b ↔ b = f a) : List.Forall₂ R as bs ↔ bs = as.map f := by
  induction as generalizing bs with
  | nil => simp
  | cons a as ih =>
    have htail (bs : List β) : List.Forall₂ R as bs ↔ bs = as.map f :=
      ih fun a ha => h a (List.mem_cons_of_mem _ ha)
    rw [List.forall₂_cons_left_iff, List.map_cons]
    constructor
    · rintro ⟨b, bs, hb, hbs, rfl⟩
      rw [(h a List.mem_cons_self b).mp hb, (htail bs).mp hbs]
    · rintro rfl
      exact ⟨_, _, (h a List.mem_cons_self _).mpr rfl, (htail _).mpr rfl, rfl⟩

theorem mirrors_iff_eq {depth : Nat} {node : Parameter}
    (h : ∀ nodes, List.Forall₂ (List.Forall₂ p.Mirrors) (p.listsOf q) nodes ↔
      nodes = p.parametersTo depth q) : p.Mirrors q node ↔ node = p.parameterTo depth q := by
  unfold parameterTo
  cases hx : p.decl? q with
  | none =>
    rw [Option.any_none, if_neg Bool.false_ne_true]
    constructor
    · intro hm
      cases hm with
      | value => rfl
      | functional hy => rw [hx] at hy; cases hy
    · rintro rfl
      exact .value fun x hy => by rw [hx] at hy; cases hy
  | some x =>
    rw [Option.any_some]
    cases hmethod : x.isMethod with
    | false =>
      rw [if_neg Bool.false_ne_true]
      constructor
      · intro hm
        cases hm with
        | value => rfl
        | functional hy hy' =>
          rw [← Option.mem_unique hx hy, hmethod] at hy'
          cases hy'
      · rintro rfl
        exact .value fun y hy => Option.mem_unique hx hy ▸ hmethod
    | true =>
      rw [if_pos rfl]
      constructor
      · intro hm
        cases hm with
        | value hv => rw [hv x hx] at hmethod; cases hmethod
        | functional hy _ hlists =>
          rw [← listsOf_of_decl? hy] at hlists
          rw [(h _).mp hlists]
      · rintro rfl
        exact .functional hx hmethod (listsOf_of_decl? hx ▸ (h _).mpr rfl)

/-- By induction on the depth: each level has fewer declarations after it. -/
theorem Tidy.mirrors_parametersTo_iff (hp : p.Tidy) (depth : Nat) (hd : p.decls.size ≤ depth + d.index)
    (nodes : List (List Parameter)) :
    List.Forall₂ (List.Forall₂ p.Mirrors) (p.listsOf d) nodes ↔
      nodes = p.parametersTo (depth + 1) d := by
  induction depth generalizing d nodes with
  | zero =>
    have hnone : p.listsOf d = [] := by
      rw [listsOf, decl?, Array.getElem?_eq_none (by omega)]
      rfl
    rw [parametersTo_succ, hnone, List.forall₂_nil_left_iff]
    rfl
  | succ depth ih =>
    rw [parametersTo_succ]
    refine forall₂_iff_eq_map fun list hlist _ => forall₂_iff_eq_map fun q hq node => ?_
    obtain ⟨hlt, -⟩ := hp.index_lt (List.mem_flatten.mpr ⟨list, hlist, hq⟩)
    exact mirrors_iff_eq (ih (by omega))

theorem Tidy.mirrors_iff (hp : p.Tidy) (d : DeclId) (nodes : List (List Parameter)) :
    List.Forall₂ (List.Forall₂ p.Mirrors) (p.listsOf d) nodes ↔ nodes = p.parameters d :=
  hp.mirrors_parametersTo_iff p.decls.size (Nat.le_add_right _ _) nodes

theorem Tidy.parametersTo_eq (hp : p.Tidy) {depth : Nat} (hd : p.decls.size < depth + d.index) :
    p.parametersTo depth d = p.parameters d := by
  cases depth with
  | zero =>
    rw [← (hp.mirrors_iff d []).mp ?_]
    · rfl
    · rw [listsOf, decl?, Array.getElem?_eq_none (by omega)]
      exact .nil
  | succ depth =>
    have hdepth : p.decls.size ≤ depth + d.index := by omega
    exact (hp.mirrors_iff d _).mp ((hp.mirrors_parametersTo_iff depth hdepth _).mpr rfl)

end Unbox.Program
