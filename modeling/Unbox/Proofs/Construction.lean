import Mathlib.Data.List.Nodup
import Mathlib.Logic.Relation
import Unbox.Proofs.Writes

/-!
# Programs under construction

What a step of construction can do to the table of declarations, said once, and what every such step
keeps: members and parameters are listed exactly where they are declared.

* `Kind.category` : what stays of a kind while its lists grow;
* `Program.contents d` : what is declared directly in `d`, in the order of the table, type parameters
  apart;
* `Program.ParameterOf d q` : `q` is marked as a parameter, stands directly in `d` and comes after it;
* `Program.Tidy` : classes and interfaces list their contents, and parameter lists hold parameters of
  their owner, none twice;
* `Program.Change n` : one step, either a new declaration or the revision of one; `n` declarations were
  there before the operation that the step belongs to, and only the others may still move to a scope;
* `Tidy.change`, `Changes.tidy` : a step and any number of them keep a program tidy;
* `Changes.stays` : name, category and scope of what was there before stay;
* `Tidy.nodup_listed` : no id stands twice in all parameter lists together.
-/

namespace Unbox

/-- What a kind declares, without its data. -/
inductive Category where
  | value
  | method
  | setter
  | classType
  | interfaceType
  | typeAlias
  | typeParameter
deriving DecidableEq

def Kind.category : Kind → Category
  | .value => .value
  | .method _ => .method
  | .setter _ => .setter
  | .classType _ => .classType
  | .interfaceType _ => .interfaceType
  | .typeAlias _ => .typeAlias
  | .typeParameter _ => .typeParameter

namespace Declaration
variable {x y : Declaration}

theorem isClassOrInterface_iff : x.isClassOrInterface = true ↔
    x.kind.category = .classType ∨ x.kind.category = .interfaceType := by
  unfold isClassOrInterface isClass isInterface
  cases x.kind <;> simp [Kind.category]

theorem isTypeParameter_iff : x.isTypeParameter = true ↔ x.kind.category = .typeParameter := by
  unfold isTypeParameter
  cases x.kind <;> simp [Kind.category]

theorem isClassOrInterface_congr (h : y.kind.category = x.kind.category) :
    y.isClassOrInterface = x.isClassOrInterface := by
  rw [Bool.eq_iff_iff, isClassOrInterface_iff, isClassOrInterface_iff, h]

theorem isTypeParameter_congr (h : y.kind.category = x.kind.category) :
    y.isTypeParameter = x.isTypeParameter := by
  rw [Bool.eq_iff_iff, isTypeParameter_iff, isTypeParameter_iff, h]

/-- No parameters and no members yet. -/
def IsBlank (x : Declaration) : Prop := x.parameterLists.flatten = [] ∧ x.members = []

instance (x : Declaration) : Decidable x.IsBlank :=
  inferInstanceAs (Decidable (x.parameterLists.flatten = [] ∧ x.members = []))

/-- The same declaration with further members, if it is a class or interface. -/
structure Gains (ms : List DeclId) (x y : Declaration) : Prop where
  name : y.name = x.name
  category : y.kind.category = x.kind.category
  scope : y.scope = x.scope
  isParameter : y.isParameter = x.isParameter
  lists : y.parameterLists = x.parameterLists
  members : x.isClassOrInterface = true → y.members = x.members ++ ms

theorem Gains.refl (x : Declaration) : x.Gains [] x :=
  ⟨rfl, rfl, rfl, rfl, rfl, fun _ => (List.append_nil _).symm⟩

end Declaration

namespace Program
variable {p p' : Program} {d e o q : DeclId} {x y : Declaration} {n : Nat}

/-! ## Tidy programs -/

/-- The id of the next declaration. -/
def nextDecl (p : Program) : DeclId := ⟨p.decls.size⟩

/-- The ids of all declarations in the order of the table. -/
def ids (p : Program) : List DeclId := (List.range p.decls.size).map Id.mk

/-- `e` stands directly in `d` and is no type parameter. -/
def isMemberOf (p : Program) (d e : DeclId) : Bool :=
  (p.decl? e).any fun y => !y.isTypeParameter && decide (y.scope = .declaration d)

def contents (p : Program) (d : DeclId) : List DeclId := p.ids.filter (p.isMemberOf d)

def ParameterOf (p : Program) (d q : DeclId) : Prop :=
  ∃ y ∈ p.decl? q, y.isParameter = true ∧ y.scope = .declaration d ∧ d < q

instance : Decidable (p.ParameterOf d q) :=
  inferInstanceAs (Decidable (∃ y ∈ p.decl? q, y.isParameter = true ∧ y.scope = .declaration d ∧ d < q))

structure Tidy (p : Program) : Prop where
  /-- A class or interface has as members what is declared in it. -/
  members : ∀ d, ∀ x ∈ p.decl? d, x.isClassOrInterface = true → x.members = p.contents d
  parameters : ∀ d, ∀ x ∈ p.decl? d, ∀ q ∈ x.parameterLists.flatten, p.ParameterOf d q
  nodup : ∀ d, ∀ x ∈ p.decl? d, x.parameterLists.flatten.Nodup
  /-- What anything is declared in is in the table. -/
  scopes : ∀ d, ∀ x ∈ p.decl? d, ∀ o, x.scope = .declaration o → p.hasDecl o = true

theorem hasDecl_iff : p.hasDecl d = true ↔ d.index < p.decls.size := decide_eq_true_iff

theorem mem_ids : d ∈ p.ids ↔ p.hasDecl d = true := by
  rw [hasDecl_iff, ids, List.mem_map]
  constructor
  · rintro ⟨i, hi, rfl⟩
    exact List.mem_range.mp hi
  · intro h
    exact ⟨d.index, List.mem_range.mpr h, rfl⟩

theorem isMemberOf_of_decl? (h : y ∈ p.decl? e) :
    p.isMemberOf d e = (!y.isTypeParameter && decide (y.scope = .declaration d)) := by
  rw [isMemberOf, Option.mem_def.mp h]
  rfl

theorem ne_nextDecl (h : p.hasDecl d = true) : d ≠ p.nextDecl := by
  rintro rfl
  exact Nat.lt_irrefl _ (hasDecl_iff.mp h)

theorem ne_nextDecl_of_mem (h : x ∈ p.decl? d) : d ≠ p.nextDecl := ne_nextDecl (hasDecl_of_decl? h)

/-! ## New declarations -/

/-- `x` is new at the end of the table and the last member of the class or interface that it stands in,
unless it is a type parameter. -/
structure Declares (p : Program) (x : Declaration) (p' : Program) : Prop where
  size : p'.decls.size = p.decls.size + 1
  new : x ∈ p'.decl? p.nextDecl
  old : ∀ d, ∀ y ∈ p.decl? d, ∃ y' ∈ p'.decl? d,
    y.Gains ([p.nextDecl].filter (p'.isMemberOf d)) y'

namespace Declares
variable (h : p.Declares x p')
include h

theorem hasDecl (hd : p.hasDecl d = true) : p'.hasDecl d = true := by
  rw [hasDecl_iff] at hd ⊢
  rw [h.size]
  exact Nat.lt_succ_of_lt hd

theorem cases {y' : Declaration} (hy : y' ∈ p'.decl? d) : d = p.nextDecl ∧ y' = x ∨
    ∃ y ∈ p.decl? d, y.Gains ([p.nextDecl].filter (p'.isMemberOf d)) y' := by
  by_cases hd : d = p.nextDecl
  · rw [hd] at hy
    exact .inl ⟨hd, Option.mem_unique hy h.new⟩
  · have hlt := hasDecl_iff.mp (hasDecl_of_decl? hy)
    have hne : d.index ≠ p.decls.size := fun he => hd (congrArg Id.mk he)
    have hsize := h.size
    obtain ⟨y, hy₀⟩ := exists_decl? (hasDecl_iff.mpr (by omega : d.index < p.decls.size))
    obtain ⟨y'', hy'', hg⟩ := h.old d y hy₀
    rw [Option.mem_unique hy hy'']
    exact .inr ⟨y, hy₀, hg⟩

theorem isMemberOf (he : p.hasDecl e = true) : p'.isMemberOf d e = p.isMemberOf d e := by
  obtain ⟨y, hy⟩ := exists_decl? he
  obtain ⟨y', hy', hg⟩ := h.old e y hy
  rw [isMemberOf_of_decl? hy, isMemberOf_of_decl? hy', hg.scope,
    Declaration.isTypeParameter_congr hg.category]

theorem contents (d : DeclId) :
    p'.contents d = p.contents d ++ [p.nextDecl].filter (p'.isMemberOf d) := by
  have hids : p'.ids = p.ids ++ [p.nextDecl] := by
    rw [ids, ids, h.size, List.range_succ, List.map_append, List.map_singleton]
    rfl
  have hold : p.ids.filter (p'.isMemberOf d) = p.ids.filter (p.isMemberOf d) :=
    List.filter_congr fun e he => h.isMemberOf (mem_ids.mp he)
  rw [Program.contents, hids, List.filter_append, hold]
  rfl

theorem parameterOf (hq : p.ParameterOf d q) : p'.ParameterOf d q := by
  obtain ⟨y, hy, hp, hs, hlt⟩ := hq
  obtain ⟨y', hy', hg⟩ := h.old q y hy
  exact ⟨y', hy', hg.isParameter.trans hp, hg.scope.trans hs, hlt⟩

theorem tidy (hp : p.Tidy) (hblank : x.IsBlank)
    (hscope : ∀ o, x.scope = .declaration o → p.hasDecl o = true) : p'.Tidy := by
  refine ⟨fun d y' hy hclass => ?_, fun d y' hy q hq => ?_, fun d y' hy => ?_,
    fun d y' hy o ho => ?_⟩
  · rcases h.cases hy with ⟨rfl, rfl⟩ | ⟨y, hy₀, hg⟩
    · have hempty : p'.contents p.nextDecl = [] := by
        refine List.filter_eq_nil_iff.mpr fun e he hmem => ?_
        obtain ⟨z', hz⟩ := exists_decl? (mem_ids.mp he)
        rw [isMemberOf_of_decl? hz, Bool.and_eq_true, decide_eq_true_iff] at hmem
        rcases h.cases hz with ⟨-, rfl⟩ | ⟨z, hz₀, hg⟩
        · exact ne_nextDecl (hscope _ hmem.2) rfl
        · exact ne_nextDecl (hp.scopes e z hz₀ _ (hg.scope.symm.trans hmem.2)) rfl
      rw [hempty, hblank.2]
    · rw [Declaration.isClassOrInterface_congr hg.category] at hclass
      rw [hg.members hclass, hp.members d y hy₀ hclass, h.contents]
  · rcases h.cases hy with ⟨rfl, rfl⟩ | ⟨y, hy₀, hg⟩
    · rw [hblank.1] at hq
      cases hq
    · rw [hg.lists] at hq
      exact h.parameterOf (hp.parameters d y hy₀ q hq)
  · rcases h.cases hy with ⟨rfl, rfl⟩ | ⟨y, hy₀, hg⟩
    · rw [hblank.1]
      exact List.nodup_nil
    · rw [hg.lists]
      exact hp.nodup d y hy₀
  · rcases h.cases hy with ⟨rfl, rfl⟩ | ⟨y, hy₀, hg⟩
    · exact h.hasDecl (hscope o ho)
    · exact h.hasDecl (hp.scopes d y hy₀ o (hg.scope.symm.trans ho))

end Declares

/-- What is no member of anything goes to the end of the table, and that is all. -/
theorem declares_push (hdecls : p'.decls = p.decls.push x)
    (hx : ∀ d, x.isTypeParameter = true ∨ x.scope ≠ .declaration d) : p.Declares x p' := by
  have hdecl (d : DeclId) : p'.decl? d = if d.index = p.decls.size then some x else p.decl? d := by
    rw [decl?, hdecls]
    exact Array.getElem?_push
  have hnew : x ∈ p'.decl? p.nextDecl := by
    rw [hdecl]
    exact if_pos rfl
  refine ⟨by rw [hdecls, Array.size_push], hnew, fun d y hy => ⟨y, ?_, ?_⟩⟩
  · rw [hdecl, if_neg (Nat.ne_of_lt (hasDecl_iff.mp (hasDecl_of_decl? hy)))]
    exact hy
  · have hnone : p'.isMemberOf d p.nextDecl = false := by
      rw [isMemberOf_of_decl? hnew]
      rcases hx d with h | h <;> simp [h]
    rw [List.filter_cons_of_neg (by simp [hnone]), List.filter_nil]
    exact .refl y

/-- What stands in `o` and is no type parameter is noted there. -/
theorem declares_member {f : Declaration → Declaration}
    (hdecls : p'.decls = (p.decls.push x).modify o.index f) (hscope : x.scope = .declaration o)
    (hx : x.isTypeParameter = false) (ho : p.hasDecl o = true)
    (hf : ∀ y : Declaration, y.Gains [p.nextDecl] (f y)) : p.Declares x p' := by
  have hne : o.index ≠ p.decls.size := Nat.ne_of_lt (hasDecl_iff.mp ho)
  have hdecl (d : DeclId) : p'.decl? d = if o.index = d.index then ((p.decls.push x)[d.index]?).map f
      else (p.decls.push x)[d.index]? := by
    rw [decl?, hdecls]
    exact Array.getElem?_modify
  have hnew : x ∈ p'.decl? p.nextDecl := by
    rw [hdecl]
    exact (if_neg hne).trans (Array.getElem?_push.trans (if_pos rfl))
  have hmember (d : DeclId) : p'.isMemberOf d p.nextDecl = decide (o = d) := by
    rw [isMemberOf_of_decl? hnew, hx, hscope]
    simp
  refine ⟨by rw [hdecls, Array.size_modify, Array.size_push], hnew, fun d y hy => ?_⟩
  have hold : (p.decls.push x)[d.index]? = some y := by
    rw [Array.getElem?_push, if_neg (Nat.ne_of_lt (hasDecl_iff.mp (hasDecl_of_decl? hy)))]
    exact hy
  by_cases hd : o = d
  · subst hd
    refine ⟨f y, ?_, ?_⟩
    · rw [hdecl, if_pos rfl, hold]
      rfl
    · rw [List.filter_cons_of_pos (by simp [hmember])]
      exact hf y
  · refine ⟨y, ?_, ?_⟩
    · rw [hdecl, if_neg fun h => hd (congrArg Id.mk h), hold]
      rfl
    · rw [List.filter_cons_of_neg (by simp [hmember, hd]), List.filter_nil]
      exact .refl y

/-! ## Revised declarations -/

/-- Only the declaration `d` changes, in the way that `R` says. -/
structure Alters (p : Program) (d : DeclId) (R : Declaration → Declaration → Prop) (p' : Program) :
    Prop where
  size : p'.decls.size = p.decls.size
  others : ∀ e, e ≠ d → p'.decl? e = p.decl? e
  this : ∀ x ∈ p.decl? d, ∃ y ∈ p'.decl? d, R x y

/-- What an operation may change in the declaration `d`: its last parameter list can get a parameter,
and a declaration that the operation itself has put at unit level can move to a scope that keeps no
members. -/
structure Revises (n : Nat) (p : Program) (d : DeclId) (x y : Declaration) : Prop where
  name : y.name = x.name
  category : y.kind.category = x.kind.category
  isParameter : x.isParameter = true → y.isParameter = true
  members : y.members = x.members
  scope : y.scope = x.scope ∨ n ≤ d.index ∧ x.scope = .unit ∧
    ∃ o, y.scope = .declaration o ∧ ∃ z ∈ p.decl? o, z.isClassOrInterface = false
  lists : y.parameterLists.flatten = x.parameterLists.flatten ∨
    ∃ q, y.parameterLists.flatten = x.parameterLists.flatten ++ [q] ∧
      q ∉ x.parameterLists.flatten ∧ p.ParameterOf d q

namespace Alters
variable {R : Declaration → Declaration → Prop}

theorem mono (h : p.Alters d R p') {S : Declaration → Declaration → Prop}
    (hRS : ∀ x ∈ p.decl? d, ∀ y, R x y → S x y) : p.Alters d S p' :=
  ⟨h.size, h.others, fun x hx => (h.this x hx).imp fun y hy => ⟨hy.1, hRS x hx y hy.2⟩⟩

theorem hasDecl (h : p.Alters d R p') : p'.hasDecl e = p.hasDecl e := by
  rw [Program.hasDecl, Program.hasDecl, h.size]

theorem cases (h : p.Alters d R p') {y : Declaration} (hy : y ∈ p'.decl? e) :
    e ≠ d ∧ y ∈ p.decl? e ∨ e = d ∧ ∃ x ∈ p.decl? d, R x y := by
  by_cases he : e = d
  · subst he
    have hd := hasDecl_of_decl? hy
    rw [h.hasDecl] at hd
    obtain ⟨x, hx⟩ := exists_decl? hd
    obtain ⟨y', hy', hR⟩ := h.this x hx
    rw [Option.mem_unique hy hy']
    exact .inr ⟨rfl, x, hx, hR⟩
  · rw [h.others e he] at hy
    exact .inl ⟨he, hy⟩

variable (h : p.Alters d (Revises n p d) p')
include h

theorem exists_revised (hx : x ∈ p.decl? e) : ∃ y ∈ p'.decl? e, y = x ∨ e = d ∧ Revises n p d x y := by
  by_cases he : e = d
  · subst he
    obtain ⟨y, hy, hr⟩ := h.this x hx
    exact ⟨y, hy, .inr ⟨rfl, hr⟩⟩
  · exact ⟨x, (h.others e he).symm ▸ hx, .inl rfl⟩

theorem parameterOf {a : DeclId} (hq : p.ParameterOf a q) : p'.ParameterOf a q := by
  obtain ⟨x, hx, hp, hs, hlt⟩ := hq
  obtain ⟨y, hy, rfl | ⟨-, hr⟩⟩ := h.exists_revised hx
  · exact ⟨y, hy, hp, hs, hlt⟩
  · refine ⟨y, hy, hr.isParameter hp, ?_, hlt⟩
    rcases hr.scope with hsame | ⟨-, hunit, -⟩
    · exact hsame.trans hs
    · rw [hs] at hunit
      cases hunit

/-- A declaration that moves becomes a member of no class or interface. -/
theorem contents {a : DeclId} (ha : ∀ z ∈ p.decl? a, z.isClassOrInterface = true) :
    p'.contents a = p.contents a := by
  have hids : p'.ids = p.ids := by rw [ids, ids, h.size]
  rw [Program.contents, Program.contents, hids]
  refine List.filter_congr fun e he => ?_
  obtain ⟨x, hx⟩ := exists_decl? (mem_ids.mp he)
  obtain ⟨y, hy, rfl | ⟨-, hr⟩⟩ := h.exists_revised hx
  · rw [isMemberOf_of_decl? hx, isMemberOf_of_decl? hy]
  · rw [isMemberOf_of_decl? hx, isMemberOf_of_decl? hy, Declaration.isTypeParameter_congr hr.category]
    rcases hr.scope with hsame | ⟨-, hunit, o, hscope, z, hz, hplain⟩
    · rw [hsame]
    · have hne : ¬ Scope.declaration o = .declaration a := by
        intro heq
        obtain rfl := Scope.declaration.inj heq
        rw [ha z hz] at hplain
        cases hplain
      rw [hscope, hunit, decide_eq_false hne, decide_eq_false (by simp)]

theorem tidy (hp : p.Tidy) : p'.Tidy := by
  refine ⟨fun e y hy hclass => ?_, fun e y hy q hq => ?_, fun e y hy => ?_, fun e y hy o ho => ?_⟩
  · obtain ⟨x, hx, hm, hc⟩ : ∃ x ∈ p.decl? e, y.members = x.members ∧
        y.kind.category = x.kind.category := by
      rcases h.cases hy with ⟨-, hy₀⟩ | ⟨rfl, x, hx, hr⟩
      · exact ⟨y, hy₀, rfl, rfl⟩
      · exact ⟨x, hx, hr.members, hr.category⟩
    rw [Declaration.isClassOrInterface_congr hc] at hclass
    rw [hm, hp.members e x hx hclass, h.contents fun z hz => Option.mem_unique hx hz ▸ hclass]
  · rcases h.cases hy with ⟨-, hy₀⟩ | ⟨rfl, x, hx, hr⟩
    · exact h.parameterOf (hp.parameters e y hy₀ q hq)
    · rcases hr.lists with hsame | ⟨a, happend, -, ha⟩
      · rw [hsame] at hq
        exact h.parameterOf (hp.parameters e x hx q hq)
      · rw [happend, List.mem_append, List.mem_singleton] at hq
        rcases hq with hq | rfl
        · exact h.parameterOf (hp.parameters e x hx q hq)
        · exact h.parameterOf ha
  · rcases h.cases hy with ⟨-, hy₀⟩ | ⟨rfl, x, hx, hr⟩
    · exact hp.nodup e y hy₀
    · rcases hr.lists with hsame | ⟨a, happend, hnew, -⟩
      · rw [hsame]
        exact hp.nodup e x hx
      · rw [happend, ← List.concat_eq_append]
        exact (hp.nodup e x hx).concat hnew
  · rw [h.hasDecl]
    rcases h.cases hy with ⟨-, hy₀⟩ | ⟨rfl, x, hx, hr⟩
    · exact hp.scopes e y hy₀ o ho
    · rcases hr.scope with hsame | ⟨-, -, o', hscope, z, hz, -⟩
      · exact hp.scopes e x hx o (hsame.symm.trans ho)
      · obtain rfl := Scope.declaration.inj (hscope.symm.trans ho)
        exact hasDecl_of_decl? hz

end Alters

/-! ## Steps of construction -/

/-- One step, where `n` declarations were there before the operation. -/
inductive Change (n : Nat) (p p' : Program) : Prop where
  | declared (x : Declaration) (hblank : x.IsBlank)
    (hscope : ∀ o, x.scope = .declaration o → p.hasDecl o = true) (h : p.Declares x p')
  | revised (d : DeclId) (h : p.Alters d (Revises n p d) p')

abbrev Changes (n : Nat) : Program → Program → Prop := Relation.ReflTransGen (Change n)

theorem Tidy.change (hp : p.Tidy) (h : Change n p p') : p'.Tidy := by
  cases h with
  | declared x hblank hscope h => exact h.tidy hp hblank hscope
  | revised d h => exact h.tidy hp

theorem Changes.tidy (h : Changes n p p') (hp : p.Tidy) : p'.Tidy := by
  induction h with
  | refl => exact hp
  | tail _ hstep ih => exact ih.change hstep

/-- What does not touch the declarations is a step too: it revises none of them. -/
theorem Changes.of_decls_eq (h : p'.decls = p.decls) : Changes n p p' := by
  have hdecl : p'.decl? = p.decl? := by
    funext d
    rw [decl?, decl?, h]
  refine .single (.revised p.nextDecl ⟨by rw [h], fun e _ => by rw [hdecl], fun x hx => ?_⟩)
  exact absurd rfl (ne_nextDecl_of_mem hx)

/-- What is the same of a declaration after any operations. -/
structure Stays (x y : Declaration) : Prop where
  name : y.name = x.name
  category : y.kind.category = x.kind.category
  scope : y.scope = x.scope

theorem Stays.refl (x : Declaration) : Stays x x := ⟨rfl, rfl, rfl⟩

theorem Stays.trans {z : Declaration} (h : Stays x y) (h' : Stays y z) : Stays x z :=
  ⟨h'.name.trans h.name, h'.category.trans h.category, h'.scope.trans h.scope⟩

theorem Changes.stays (h : Changes n p p') (hd : d.index < n) (hx : x ∈ p.decl? d) :
    ∃ y ∈ p'.decl? d, Stays x y := by
  induction h with
  | refl => exact ⟨x, hx, .refl x⟩
  | tail _ hstep ih =>
    obtain ⟨y, hy, hs⟩ := ih
    cases hstep with
    | declared _ _ _ h =>
      obtain ⟨z, hz, hg⟩ := h.old d y hy
      exact ⟨z, hz, hs.trans ⟨hg.name, hg.category, hg.scope⟩⟩
    | revised e h =>
      obtain ⟨z, hz, rfl | ⟨rfl, hr⟩⟩ := h.exists_revised hy
      · exact ⟨z, hz, hs⟩
      · have hscope : z.scope = y.scope := hr.scope.resolve_right fun hmoved => by omega
        exact ⟨z, hz, hs.trans ⟨hr.name, hr.category, hscope⟩⟩

/-! ## All parameter lists together -/

/-- The parameter lists of all declarations, one after the other. -/
def listed (p : Program) : List DeclId := p.decls.toList.flatMap fun x => x.parameterLists.flatten

/-- A parameter stands in one scope only, so that it cannot be in the lists of two declarations. -/
theorem Tidy.nodup_listed (hp : p.Tidy) : p.listed.Nodup := by
  have hdecl {i : Nat} (hi : i < p.decls.toList.length) : p.decls.toList[i] ∈ p.decl? ⟨i⟩ := by
    rw [decl?, Option.mem_def, ← Array.getElem?_toList, List.getElem?_eq_getElem hi]
  refine List.nodup_flatMap.mpr ⟨fun x hx => ?_, List.pairwise_iff_getElem.mpr ?_⟩
  · obtain ⟨i, hi, rfl⟩ := List.getElem_of_mem hx
    exact hp.nodup ⟨i⟩ _ (hdecl hi)
  · intro i j hi hj hlt q hqi hqj
    obtain ⟨y, hy, -, hs, -⟩ := hp.parameters ⟨i⟩ _ (hdecl hi) q hqi
    obtain ⟨z, hz, -, hs', -⟩ := hp.parameters ⟨j⟩ _ (hdecl hj) q hqj
    obtain rfl := Option.mem_unique hy hz
    have heq := Id.mk.inj (Scope.declaration.inj (hs.symm.trans hs'))
    omega

end Program

end Unbox
