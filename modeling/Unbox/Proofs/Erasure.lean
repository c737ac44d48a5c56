import Mathlib.Logic.Function.Iterate
import Mathlib.Logic.Relation
import Unbox.Policy.Standard
import Unbox.Proofs.Chains
import Unbox.Proofs.Termination

/-!
# What a type looks like, and bounds that lead back to it

An optional type looks like the type that it is made of, and a type parameter like the bound that it
keeps. Nothing but the order of the table keeps the way along the two from coming back, and bounds do
not follow that order. A kept bound that is a type parameter ends the way, but one that is an optional
use of a type parameter does not.

* `Program.looksLike?` : the type that another one looks like, once boxed;
* `Program.Circular t` : the way from `t` along these comes back;
* `Program.erasedOnce` : one turn of finding out what a type looks like, with nothing that counts the
  turns;
* `Program.ends_iff` : what shows within a depth is what the recursion gives if it ends there;
* `Program.InOrder` : what a type is made of comes before it in the table;
* `Program.erased_ends_iff` : the recursion ends exactly on the types that are not circular, and a
  circle goes through an optional bound.
-/

namespace Unbox

theorem ComesBack.of_next {α : Type} {next : α → Option α} {a b : α} (hab : next a = some b)
    (h : ComesBack next b) : ComesBack next a := by
  obtain ⟨c, hbc, hcc⟩ := h
  exact ⟨c, .head hab hbc, hcc⟩

namespace Program
variable {p : Program} {t u : TypeId}

/-! ## One turn -/

/-- The type that `t` looks like, once boxed: the payload of an optional type, or the bound that a
type parameter keeps, unless that is a type parameter. -/
def looksLike? (p : Program) (t : TypeId) : Option TypeId :=
  match p.optionalPayload? t with
  | some payload => some payload
  | none =>
    match p.form? t with
    | some (.typeParameter d) =>
      (p.firstKeptBound? d).filter fun bound => !p.isTypeParameterUse bound
    | _ => none

def LooksLike (p : Program) (t u : TypeId) : Prop := p.looksLike? t = some u

/-- The way from `t` along what it looks like comes to a type to which it leads back. -/
def Circular (p : Program) (t : TypeId) : Prop := ComesBack p.looksLike? t

/-- One turn of finding out what a type looks like. -/
def erasedOnce (p : Program) (again : TypeId → Erased) (t : TypeId) : Erased :=
  match p.optionalPayload? t with
  | some payload => (again payload).boxed
  | none =>
    match if p.isBasic t then p.nominal? t else none with
    | some d => .primitive d
    | none =>
      if p.erasesToObject t then .object
      else match p.form? t with
        | some (.nominal d _) => .reference d
        | some (.typeParameter d) =>
          match p.firstKeptBound? d with
          | some bound => if p.isTypeParameterUse bound then .object else (again bound).boxed
          | none => .object
        | _ => .object

theorem looksLike?_cases (h : p.LooksLike t u) : p.optionalPayload? t = some u ∨
    p.optionalPayload? t = none ∧ ∃ d, p.form? t = some (.typeParameter d) ∧
      p.firstKeptBound? d = some u ∧ p.isTypeParameterUse u = false := by
  unfold LooksLike looksLike? at h
  cases hp : p.optionalPayload? t with
  | some payload =>
    rw [hp] at h
    exact .inl h
  | none =>
    simp only [hp] at h
    split at h
    · next d hform =>
      obtain ⟨hbound, hkept⟩ := Option.filter_eq_some_iff.mp h
      exact .inr ⟨rfl, d, hform, hbound, by simpa using hkept⟩
    · cases h

theorem hasType_of_looksLike (h : p.LooksLike t u) : p.hasType t = true := by
  rcases looksLike?_cases h with hp | ⟨-, d, hform, -⟩
  · obtain ⟨form, hform, -⟩ := partOf_of_optionalPayload? hp
    exact hasType_of_form? hform
  · exact hasType_of_form? hform

/-- A type parameter is neither basic nor does it erase to the top type by itself. -/
theorem erasesToObject_of_typeParameter {d : DeclId} (hp : p.optionalPayload? t = none)
    (hform : p.form? t = some (.typeParameter d)) : p.erasesToObject t = false := by
  simp [erasesToObject, typeDepth, erasesToObjectTo, hp, hform]

theorem erasedOnce_of_looksLike (h : p.LooksLike t u) (again : TypeId → Erased) :
    p.erasedOnce again t = (again u).boxed := by
  rcases looksLike?_cases h with hp | ⟨hp, d, hform, hbound, huse⟩
  · simp only [erasedOnce, hp]
  · simp [erasedOnce, hp, nominal?, erasesToObject_of_typeParameter hp hform, hform, hbound, huse]

theorem erasedTo_of_looksLike (h : p.LooksLike t u) (n : Nat) :
    p.erasedTo (n + 1) t = (p.erasedTo n u).map Erased.boxed := by
  rcases looksLike?_cases h with hp | ⟨hp, d, hform, hbound, huse⟩
  · simp only [erasedTo, hp]
  · simp [erasedTo, hp, isBasic, erasesToObject_of_typeParameter hp hform, hform, hbound, huse]

theorem form?_of_isBasic (h : p.isBasic t = true) :
    ∃ d, p.form? t = some (.nominal d []) ∧ p.core.isBasicClass d = true := by
  unfold isBasic at h
  split at h
  · next d hform => exact ⟨d, hform, h⟩
  · cases h

theorem nominal?_of_isBasic (h : p.isBasic t = true) : ∃ d, p.nominal? t = some d := by
  obtain ⟨d, hform, -⟩ := form?_of_isBasic h
  exact ⟨d, by simp [nominal?, hform]⟩

theorem erasedTo_of_none (h : p.looksLike? t = none) (n : Nat) (again : TypeId → Erased) :
    p.erasedTo (n + 1) t = some (p.erasedOnce again t) := by
  unfold looksLike? at h
  cases hp : p.optionalPayload? t with
  | some payload => simp [hp] at h
  | none =>
    simp only [hp] at h
    by_cases hbasic : p.isBasic t = true
    · obtain ⟨d, hd⟩ := nominal?_of_isBasic hbasic
      simp [erasedTo, erasedOnce, hp, hbasic, hd]
    · by_cases herases : p.erasesToObject t = true
      · simp [erasedTo, erasedOnce, hp, hbasic, herases]
      · cases hform : p.form? t with
        | none => simp [erasedTo, erasedOnce, hp, hbasic, herases, hform]
        | some form =>
          cases form with
          | typeParameter d =>
            cases hbound : p.firstKeptBound? d with
            | none => simp [erasedTo, erasedOnce, hp, hbasic, herases, hform, hbound]
            | some bound =>
              have huse : p.isTypeParameterUse bound = true := by simpa [hform, hbound] using h
              simp [erasedTo, erasedOnce, hp, hbasic, herases, hform, hbound, huse]
          | _ => simp [erasedTo, erasedOnce, hp, hbasic, herases, hform]

/-! ## The recursion -/

theorem ends_of_erasedTo {n : Nat} {look : Erased} (h : p.erasedTo n t = some look) :
    Ends p.erasedOnce n (fun erased => erased t) look := by
  intro deeper
  dsimp only
  induction n generalizing t look with
  | zero => cases h
  | succ n ih =>
    rw [Function.iterate_succ_apply']
    cases hu : p.looksLike? t with
    | none => exact Option.some.inj ((erasedTo_of_none hu n _).symm.trans h)
    | some u =>
      rw [erasedTo_of_looksLike hu] at h
      obtain ⟨look', hlook, rfl⟩ := Option.map_eq_some_iff.mp h
      rw [erasedOnce_of_looksLike hu, ih hlook]

/-- Where nothing shows, whatever the deepest calls give comes through, if boxing keeps it. -/
theorem iterate_of_erasedTo_none {n : Nat} {look : Erased} (h : p.erasedTo n t = none)
    (hlook : look.boxed = look) : (p.erasedOnce^[n] fun _ => look) t = look := by
  induction n generalizing t with
  | zero => rfl
  | succ n ih =>
    rw [Function.iterate_succ_apply']
    cases hu : p.looksLike? t with
    | none =>
      rw [erasedTo_of_none hu n fun _ => look] at h
      cases h
    | some u =>
      rw [erasedTo_of_looksLike hu] at h
      rw [erasedOnce_of_looksLike hu, ih (Option.map_eq_none_iff.mp h), hlook]

/-- What shows within a depth is what the recursion gives if its calls are nested at most that deep. -/
theorem ends_iff {n : Nat} {look : Erased} :
    Ends p.erasedOnce n (fun erased => erased t) look ↔ p.erasedTo n t = some look := by
  refine ⟨fun h => ?_, ends_of_erasedTo⟩
  cases hshown : p.erasedTo n t with
  | some look' =>
    have hsame : look' = look := (ends_of_erasedTo hshown fun _ => .object).symm.trans (h _)
    rw [hsame]
  | none =>
    -- the top type and a reference both come through, so no one value is given
    have htop := (h fun _ => .object).symm.trans (iterate_of_erasedTo_none hshown rfl)
    have href := (h fun _ => .reference ⟨0⟩).symm.trans (iterate_of_erasedTo_none hshown rfl)
    exact absurd (htop.symm.trans href) (by simp)

theorem erasedTo_of_circular (h : p.Circular t) (n : Nat) : p.erasedTo n t = none := by
  induction n generalizing t with
  | zero => rfl
  | succ n ih =>
    obtain ⟨u, hu, hback⟩ := h.exists_next
    rw [erasedTo_of_looksLike hu, ih hback]
    rfl

/-- On a circular type the calls of the recursion are nested without end. -/
theorem not_ends_of_circular (h : p.Circular t) (n : Nat) (look : Erased) :
    ¬ Ends p.erasedOnce n (fun erased => erased t) look := by
  intro hends
  have hshown := ends_iff.mp hends
  rw [erasedTo_of_circular h] at hshown
  cases hshown

theorem not_circular_of_erased {look : Erased} (h : p.erased t = some look) : ¬ p.Circular t := by
  intro hcircular
  rw [erased, erasedTo_of_circular hcircular] at h
  cases h

/-- By induction on the depth: `seen` are the types on the way to `t`, which are all different since
the way does not come back. -/
theorem exists_erasedTo {n : Nat} {seen : List TypeId} (h : ¬ p.Circular t)
    (hseen : ∀ a ∈ seen, Relation.TransGen p.LooksLike a t)
    (hn : unseen p.types.size seen < n) : ∃ look, p.erasedTo n t = some look := by
  induction n generalizing t seen with
  | zero => exact absurd hn (Nat.not_lt_zero _)
  | succ n ih =>
    cases hu : p.looksLike? t with
    | none => exact ⟨_, erasedTo_of_none hu n fun _ => .object⟩
    | some u =>
      have ht : t ∉ seen := fun hmem => h ⟨t, .refl, hseen t hmem⟩
      have hlt := unseen_cons_lt (of_decide_eq_true (hasType_of_looksLike hu)) ht
      have hnext : ∀ a ∈ t :: seen, Relation.TransGen p.LooksLike a u :=
        List.forall_mem_cons.mpr ⟨.single hu, fun a ha => (hseen a ha).tail hu⟩
      obtain ⟨look, hlook⟩ := ih (fun hback => h (.of_next hu hback)) hnext (by omega)
      exact ⟨look.boxed, by rw [erasedTo_of_looksLike hu, hlook, Option.map_some]⟩

theorem exists_erased (h : ¬ p.Circular t) : ∃ look, p.erased t = some look :=
  exists_erasedTo h (List.forall_mem_nil _) (unseen_lt p.types.size [])

/-! ## Circles -/

/-- What a type is made of comes before it in the table. -/
def InOrder (p : Program) : Prop := ∀ u t, p.PartOf u t → u < t

theorem InOrder.wellFounded (h : p.InOrder) : WellFounded p.PartOf :=
  Subrelation.wf (fun {u t} hut => h u t hut) (InvImage.wf Id.index Nat.lt_wfRel.wf)

theorem inOrder_of_types
    (h : ∀ i (hi : i < p.types.size), ∀ u ∈ p.types[i].parts, u.index < i) : p.InOrder := by
  rintro u t ⟨form, hform, hu⟩
  obtain ⟨hi, rfl⟩ := Array.getElem?_eq_some_iff.mp hform
  exact h t.index hi u hu

/-- Where no bound on the way is optional, a type looks like one that comes before it or like one at
which the way ends. -/
theorem lt_of_transGen (hw : p.InOrder)
    (hbounds : ∀ a d bound, Relation.ReflTransGen p.LooksLike t a →
      p.form? a = some (.typeParameter d) → p.firstKeptBound? d = some bound →
      p.optionalPayload? bound = none)
    (h : Relation.TransGen p.LooksLike t u) {v : TypeId} (hv : p.LooksLike u v) : u < t := by
  have step {a b c : TypeId} (ha : Relation.ReflTransGen p.LooksLike t a) (hb : p.LooksLike a b)
      (hc : p.LooksLike b c) : b < a := by
    rcases looksLike?_cases hb with hp | ⟨-, d, hform, hbound, huse⟩
    · exact hw b a (partOf_of_optionalPayload? hp)
    · rcases looksLike?_cases hc with hp | ⟨-, e, hform', -⟩
      · exact absurd ((hbounds a d b ha hform hbound).symm.trans hp) (by simp)
      · simp [isTypeParameterUse, hform', TypeForm.isTypeParameter] at huse
  induction h generalizing v with
  | single hb => exact step .refl hb hv
  | tail ha hb ih => exact Nat.lt_trans (step ha.to_reflTransGen hb hv) (ih hb)

/-- A circle goes through a type parameter whose kept bound is optional. -/
theorem Circular.exists_optional_bound (hw : p.InOrder) (h : p.Circular t) :
    ∃ a d bound payload, Relation.ReflTransGen p.LooksLike t a ∧
      p.form? a = some (.typeParameter d) ∧ p.firstKeptBound? d = some bound ∧
      p.optionalPayload? bound = some payload := by
  obtain ⟨b, htb, hbb⟩ := h
  by_contra hnone
  have hbounds : ∀ a d bound, Relation.ReflTransGen p.LooksLike b a →
      p.form? a = some (.typeParameter d) → p.firstKeptBound? d = some bound →
      p.optionalPayload? bound = none := by
    intro a d bound hba hform hbound
    cases hp : p.optionalPayload? bound with
    | none => rfl
    | some payload => exact absurd ⟨a, d, bound, payload, htb.trans hba, hform, hbound, hp⟩ hnone
  obtain ⟨c, hbc, -⟩ := Relation.TransGen.head'_iff.mp hbb
  exact Nat.lt_irrefl _ (lt_of_transGen hw hbounds hbb hbc)

/-! ## Widening -/

/-- One turn of listing the declarations that follow along refinement. -/
def chainOnce (p : Program) (again : List DeclId → Option DeclId → List DeclId)
    (seen : List DeclId) : Option DeclId → List DeclId
  | none => []
  | some d =>
    if seen.contains d then [] else d :: again (d :: seen) (p.decl? d >>= Declaration.refined)

theorem refinementChainTo_eq (n : Nat) :
    p.refinementChainTo n = p.chainOnce^[n] fun _ _ => [] := by
  induction n with
  | zero => rfl
  | succ n ih =>
    rw [Function.iterate_succ_apply', ← ih]
    funext seen current
    cases current <;> rfl

theorem unseen_of_pointer {d e : DeclId} {seen : List DeclId} (hd : d ∉ seen)
    (h : p.decl? d >>= Declaration.refined = some e) :
    unseen p.decls.size (d :: seen) < unseen p.decls.size seen := by
  obtain ⟨x, hx, -⟩ := Option.bind_eq_some_iff.mp h
  exact unseen_cons_of_decl? hx hd

theorem chain_ends (d : DeclId) :
    Ends p.chainOnce (p.decls.size + 1)
      (fun chain => chain [d] (p.decl? d >>= Declaration.refined)) (p.refinementChain d) := by
  unfold refinementChain
  rw [refinementChainTo_eq]
  refine ends_of_agree (fun n f g => ∀ seen current, 0 < n →
      (∀ e, current = some e → unseen p.decls.size seen + 1 < n) → f seen current = g seen current)
    (fun _ _ _ _ h => absurd h (Nat.lt_irrefl 0)) (fun n f g hfg seen current _ h => ?_)
    (fun f g hfg => hfg [d] _ (Nat.succ_pos _) fun e he => ?_) _
  · cases current with
    | none => rfl
    | some e =>
      have hn := h e rfl
      dsimp only [chainOnce]
      by_cases he : e ∈ seen
      · simp [he]
      · have hnext : f (e :: seen) (p.decl? e >>= Declaration.refined) =
            g (e :: seen) (p.decl? e >>= Declaration.refined) := by
          refine hfg _ _ (by omega) fun a ha => ?_
          have hlt := unseen_of_pointer he ha
          omega
        rw [hnext]
  · have hlt : unseen p.decls.size [d] < unseen p.decls.size [] :=
      unseen_of_pointer List.not_mem_nil he
    have hle := unseen_lt p.decls.size ([] : List DeclId)
    omega

/-- Whether `d` looks different from one of the declarations that it refines, by what types look
like. -/
def isWideningBy (p : Program) (erased : TypeId → Erased) (d : DeclId) : Bool :=
  match p.typeOf? d with
  | none => false
  | some own => ((p.refinementChain d).filterMap p.typeOf?).any fun t => erased t != erased own

theorem widening_ends {d : DeclId}
    (h : ∀ e ∈ d :: p.refinementChain d, ∀ t, p.typeOf? e = some t → ¬ p.Circular t) :
    Ends p.erasedOnce p.typeDepth (fun erased => p.isWideningBy erased d) (p.isWidening d) := by
  intro deeper
  have hshown : ∀ e ∈ d :: p.refinementChain d, ∀ t, p.typeOf? e = some t →
      p.erased t = some (p.erasedOnce^[p.typeDepth] deeper t) := by
    intro e he t ht
    obtain ⟨look, hlook⟩ := exists_erased (h e he t ht)
    have hgiven : p.erasedOnce^[p.typeDepth] deeper t = look := ends_of_erasedTo hlook deeper
    rw [hlook, hgiven]
  dsimp only [isWideningBy, isWidening]
  cases hown : p.typeOf? d with
  | none => rfl
  | some own =>
    dsimp only
    rw [hshown d List.mem_cons_self own hown, Bool.eq_iff_iff, List.any_eq_true, List.any_eq_true]
    refine exists_congr fun t => and_congr_right fun ht => ?_
    obtain ⟨e, he, hte⟩ := List.mem_filterMap.mp ht
    rw [hshown e (List.mem_cons_of_mem d he) t hte]
    simp

/-- In a table in which what a type is made of comes before it, finding out whether a type erases ends
on every type. Finding out what it looks like ends on a type if and only if it is not circular, within
as many turns as there are types and one, and a circle goes through a type parameter that keeps an
optional bound. The test for widening lists the declarations that are refined and ends wherever the
types of these and of the declaration are not circular. -/
theorem erased_ends_iff (p : Program) (hw : p.InOrder) :
    (∀ t, Ends p.erasesOnce p.typeDepth (fun erases => erases t) (p.erasesToObject t)) ∧
    (∀ t, ¬ p.Circular t → ∃ look, p.erased t = some look ∧
      Ends p.erasedOnce p.typeDepth (fun erased => erased t) look) ∧
    (∀ t, p.Circular t → p.erased t = none ∧
      (∀ n look, ¬ Ends p.erasedOnce n (fun erased => erased t) look) ∧
      ∃ a d bound payload, Relation.ReflTransGen p.LooksLike t a ∧
        p.form? a = some (.typeParameter d) ∧ p.firstKeptBound? d = some bound ∧
        p.optionalPayload? bound = some payload) ∧
    (∀ d, Ends p.chainOnce (p.decls.size + 1)
      (fun chain => chain [d] (p.decl? d >>= Declaration.refined)) (p.refinementChain d)) ∧
    ∀ d, (∀ e ∈ d :: p.refinementChain d, ∀ t, p.typeOf? e = some t → ¬ p.Circular t) →
      Ends p.erasedOnce p.typeDepth (fun erased => p.isWideningBy erased d) (p.isWidening d) := by
  refine ⟨erases_ends hw.wellFounded, fun t h => ?_, fun t h => ⟨?_, ?_, ?_⟩, chain_ends,
    fun d => widening_ends⟩
  · obtain ⟨look, hlook⟩ := exists_erased h
    exact ⟨look, hlook, ends_of_erasedTo hlook⟩
  · exact erasedTo_of_circular h _
  · exact not_ends_of_circular h
  · exact h.exists_optional_bound hw

/-- An interface (0) with a type parameter, a type parameter (1) bounded by the interface of itself
(type 1), and one (2) bounded by its own optional use (type 4). A value (4) of the first refines one (5)
of its bound. -/
def bounded : Program where
  decls := #[
    { name := some ⟨0⟩, kind := .interfaceType {}, scope := .unit, typeParameters := [⟨1⟩] },
    { name := some ⟨1⟩, kind := .typeParameter { variance := .invariant, bounds := [⟨1⟩] },
      scope := .declaration ⟨0⟩ },
    { name := some ⟨2⟩, kind := .typeParameter { variance := .invariant, bounds := [⟨4⟩] },
      scope := .declaration ⟨0⟩ },
    { name := some ⟨3⟩, kind := .classType {}, scope := .unit },
    { name := some ⟨4⟩, kind := .value, scope := .unit, type := some ⟨0⟩, refined := some ⟨5⟩ },
    { name := some ⟨4⟩, kind := .value, scope := .unit, type := some ⟨1⟩ }]
  types := #[.typeParameter ⟨1⟩, .nominal ⟨0⟩ [⟨0⟩], .typeParameter ⟨2⟩, .nominal ⟨3⟩ [],
    .union [⟨2⟩, ⟨3⟩]]
  core := ⟨⟨6⟩, ⟨6⟩, ⟨3⟩, ⟨6⟩, ⟨7⟩, ⟨7⟩, ⟨7⟩, ⟨7⟩, ⟨7⟩, ⟨7⟩, ⟨7⟩, ⟨7⟩, ⟨6⟩, ⟨6⟩, ⟨6⟩⟩

theorem circular_bounded : bounded.Circular ⟨2⟩ :=
  ⟨⟨2⟩, .refl, .tail (.single (rfl : bounded.LooksLike ⟨2⟩ ⟨4⟩)) rfl⟩

/-- The table is in order, yet the recursion does not end on the second type parameter. -/
theorem erased_endless : bounded.InOrder ∧
    ∀ n look, ¬ Ends bounded.erasedOnce n (fun erased => erased ⟨2⟩) look :=
  ⟨inOrder_of_types (by decide), not_ends_of_circular circular_bounded⟩

/-- A bound that mentions its type parameter as an argument does no harm: the first type parameter is
a reference to the interface, and the value does not widen. The second one never shows. -/
theorem erased_ends_iff_bounded :
    Ends bounded.erasedOnce 6 (fun erased => erased ⟨0⟩) (.reference ⟨0⟩) ∧
      Ends bounded.erasedOnce 6 (fun erased => bounded.isWideningBy erased ⟨4⟩) false ∧
      bounded.Circular ⟨2⟩ ∧ bounded.erased ⟨2⟩ = none := by
  obtain ⟨-, hends, hcircle, -, hwidening⟩ :=
    erased_ends_iff bounded (inOrder_of_types (by decide))
  have hfirst : bounded.erased ⟨0⟩ = some (.reference ⟨0⟩) := by decide
  have hbound : bounded.erased ⟨1⟩ = some (.reference ⟨0⟩) := by decide
  refine ⟨?_, hwidening ⟨4⟩ ?_, circular_bounded, (hcircle ⟨2⟩ circular_bounded).1⟩
  · obtain ⟨look, hlook, hlooks⟩ := hends ⟨0⟩ (not_circular_of_erased hfirst)
    obtain rfl : look = .reference ⟨0⟩ := Option.some.inj (hlook.symm.trans hfirst)
    exact hlooks
  · have hchain : bounded.refinementChain ⟨4⟩ = [⟨5⟩] := by decide
    rw [hchain]
    refine List.forall_mem_cons.mpr ⟨?_, List.forall_mem_singleton.mpr ?_⟩
    · rintro _ ⟨⟩
      exact not_circular_of_erased hfirst
    · rintro _ ⟨⟩
      exact not_circular_of_erased hbound

end Program

end Unbox
