import Unbox.Draft.Core
import Unbox.Proofs.Declaring
import Unbox.Proofs.ParameterTrees

/-!
# Building a program operation by operation

* `Declaring`, `Revising`, `Referring`, `Expressing` : the steps that hand out a declaration, that change
  what is there, that hand out a type reference, and that build an expression;
* `Operation`, `Operation.perform` : all that a program is built with, and what is handed out;
* `Operation.fits`, `Operation.fitAll` : scopes and owners are there already, and nothing is declared with
  parameters or members;
* `Operation.Stored` : what was asked for is found under the ids that were handed out;
* `Operation.step`, `Operation.run` : what one operation and any sequence of them keep;
* `Draft.Sound`, `Operation.sound_of_fitAll` : what holds of every program that is built from the core
  declarations.
-/

namespace Unbox

/-! ## Steps that hand out a declaration -/

inductive Declaring where
  | plain (name : Option String) (kind : Kind) (scope : Scope)
  | classType (name : String) (scope : Scope)
  | classWithParameters (name : String) (scope : Scope)
  | interfaceType (name : String) (scope : Scope)
  | value (name : String) (scope : Scope) (type : TypeId)
  | method (name : Option String) (scope : Scope) (result : TypeId)
  | voidMethod (name : String) (scope : Scope)
  | anonymous (scope : Scope) (result : TypeId)
  | typeAlias (name : String) (scope : Scope) (target : TypeId)
  | typeParameter (owner : DeclId) (name : String) (bounds : List TypeId)
  | parameter (owner : DeclId) (name : String) (type : TypeId)
  | functionalParameter (owner : DeclId) (name : String) (result : TypeId)

namespace Declaring

def build : Declaring → Build DeclId
  | plain name kind scope => Build.declare name kind scope
  | classType name scope => Build.declareClass name scope
  | classWithParameters name scope => Build.declareClassWithParameters name scope
  | interfaceType name scope => Build.declareInterface name scope
  | value name scope type => Build.declareValue name scope type
  | method name scope result => Build.declareMethod name scope result
  | voidMethod name scope => Build.declareVoidMethod name scope
  | anonymous scope result => Build.declareAnonymous scope result
  | typeAlias name scope target => Build.declareTypeAlias name scope target
  | typeParameter owner name bounds => Build.declareTypeParameter owner name bounds
  | parameter owner name type => Build.declareParameter owner name type
  | functionalParameter owner name result => Build.declareFunctionalParameter owner name result

/-- What is asked for. -/
def heading : Declaring → Heading
  | plain name kind scope => ⟨name, kind.category, scope⟩
  | classType name scope | classWithParameters name scope => ⟨some name, .classType, scope⟩
  | interfaceType name scope => ⟨some name, .interfaceType, scope⟩
  | value name scope _ => ⟨some name, .value, scope⟩
  | method name scope _ => ⟨name, .method, scope⟩
  | voidMethod name scope => ⟨some name, .method, scope⟩
  | anonymous scope _ => ⟨none, .method, scope⟩
  | typeAlias name scope _ => ⟨some name, .typeAlias, scope⟩
  | typeParameter owner name _ => ⟨some name, .typeParameter, .declaration owner⟩
  | parameter owner name _ => ⟨some name, .value, .declaration owner⟩
  | functionalParameter owner name _ => ⟨some name, .method, .declaration owner⟩

/-- Nothing is declared with parameters or members. -/
def isBlank : Declaring → Bool
  | plain _ kind _ => kind.isBlank
  | _ => true

open Build

theorem gets {c : Declaring} {s : Draft} (hs : s.program.Tidy) (hblank : c.isBlank = true)
    (hscope : s.program.hasScope c.heading.scope = true) :
    s.Gets c.heading (result c.build s) (after c.build s) := by
  cases c with
  | plain name kind scope => exact declare_gets name kind scope hblank hscope
  | classType name scope => exact declare_gets (some name) (.classType {}) scope rfl hscope
  | classWithParameters name scope =>
    exact declare_gets (some name) (.classType { list := some [] }) scope rfl hscope
  | interfaceType name scope => exact declare_gets (some name) (.interfaceType {}) scope rfl hscope
  | value name scope type =>
    rw [build, declareValue_eq]
    exact declareTyped_gets (some name) .value scope type rfl hscope
  | method name scope result => exact declareMethod_gets name scope result hscope
  | voidMethod name scope => exact declareVoidMethod_gets name scope hscope
  | anonymous scope result => exact declareAnonymous_gets scope result hscope
  | typeAlias name scope target =>
    exact declare_gets (some name) (.typeAlias (some target)) scope rfl hscope
  | typeParameter owner name bounds => exact declareTypeParameter_gets name bounds hscope
  | parameter owner name type =>
    rw [build, declareParameter_eq]
    exact declareListed_gets hs name .value type rfl hscope
  | functionalParameter owner name result =>
    rw [build, declareFunctionalParameter_eq]
    exact declareListed_gets hs name (.method { lists := [[]] }) result rfl hscope

end Declaring

/-! ## Steps that change what is there -/

inductive Revising where
  | standAt (location : Location)
  | intern (text : String)
  | addParameterList (d : DeclId)
  | addModifiers (d : DeclId) (ms : Modifiers)
  | refines (d refined : DeclId)
  | setType (d : DeclId) (t : TypeId)
  | extend (d : DeclId) (parent : TypeId)
  | satisfy (d : DeclId) (type : TypeId)
  | setUnboxed (d : DeclId) (b : Bool)
  | forceBoxed (d : DeclId)
  | setRaw (t : TypeId) (b : Bool)
  | setUnderlying (t : TypeId) (u : Option MachineType)

namespace Revising

def build : Revising → Build Unit
  | standAt location => Build.standAt location
  | intern text => discard (Build.intern text)
  | addParameterList d => Build.addParameterList d
  | addModifiers d ms => Build.addModifiers d ms
  | refines d refined => Build.refines d refined
  | setType d t => Build.setType d t
  | extend d parent => Build.extend d parent
  | satisfy d type => Build.satisfy d type
  | setUnboxed d b => discard (Build.setUnboxed d b)
  | forceBoxed d => Build.forceBoxed d
  | setRaw t b => Build.setRaw t b
  | setUnderlying t u => Build.setUnderlying t u

open Build

theorem becomes (r : Revising) (n : Nat) (s : Draft) : s.Becomes n 0 (after r.build s) := by
  cases r with
  | standAt location => exact (Aside.standAt location).becomes n s
  | intern text => exact (Aside.intern text).becomes n s
  | addParameterList d => exact becomes_addParameterList n d s
  | addModifiers d ms => exact becomes_addModifiers n d ms s
  | refines d refined => exact becomes_refines n d refined s
  | setType d t => exact becomes_setType n d t s
  | extend d parent => exact becomes_extend n d parent s
  | satisfy d type => exact becomes_satisfy n d type s
  | setUnboxed d b => exact (Aside.setUnboxed d b).becomes n s
  | forceBoxed d => exact (Aside.forceBoxed d).becomes n s
  | setRaw t b => exact (Aside.setRaw t b).becomes n s
  | setUnderlying t u => exact (Aside.setUnderlying t u).becomes n s

end Revising

/-! ## Steps that hand out a type reference -/

inductive Referring where
  | new (form : TypeForm)
  | core (select : Core → DeclId)
  | optional (t : TypeId)
  | sequential (t : TypeId)
  | duplicate (t : TypeId)

namespace Referring

def build : Referring → Build TypeId
  | new form => Build.newType form
  | core select => Build.coreType select
  | optional t => Build.optional t
  | sequential t => Build.sequential t
  | duplicate t => Build.duplicate t

/-- What the reference that is handed out says. A reference to nothing is its own copy. -/
def Says (p : Program) (u : TypeId) : Referring → Prop
  | new form => p.form? u = some form
  | core select => p.form? u = some (.nominal (select p.core) [])
  | optional t => ∃ null, p.form? u = some (.union [t, null]) ∧
    p.form? null = some (.nominal p.core.null [])
  | sequential t => p.form? u = some (.nominal p.core.sequential [t])
  | duplicate t => u = t ∨ ∃ form, p.form? t = some form ∧ p.form? u = some form

open Build

theorem aside (r : Referring) : Aside r.build := by
  cases r with
  | new form => exact .newType form
  | core select => exact .coreType select
  | optional t => exact .optional t
  | sequential t => exact .sequential t
  | duplicate t => exact .duplicate t

theorem says_build (r : Referring) (s : Draft) : r.Says (after r.build s).program (result r.build s) := by
  cases r with
  | new form => exact form?_newType form s
  | core select => exact form?_newType _ s
  | optional t =>
    refine ⟨_, form?_newType _ _, ?_⟩
    exact ((Aside.newType _) _).2.2.form _ _ (form?_newType _ s)
  | sequential t => exact form?_newType _ s
  | duplicate t => exact form?_duplicate t s

theorem Says.extends {r : Referring} {p p' : Program} {u : TypeId} (hp : p.Extends p')
    (h : r.Says p u) : r.Says p' u := by
  cases r with
  | new form => exact hp.form _ _ h
  | core select =>
    rw [Says, hp.core]
    exact hp.form _ _ h
  | optional t =>
    obtain ⟨null, hu, hnull⟩ := h
    rw [Says, hp.core]
    exact ⟨null, hp.form _ _ hu, hp.form _ _ hnull⟩
  | sequential t =>
    rw [Says, hp.core]
    exact hp.form _ _ h
  | duplicate t => exact h.imp_right fun ⟨form, ht, hu⟩ => ⟨form, hp.form _ _ ht, hp.form _ _ hu⟩

end Referring

/-! ## Steps that build an expression -/

inductive Expressing where
  | new (form : Form) (type : Option TypeId)
  | natural (value : Nat)
  | float (value : Float)
  | string (value : String)
  | character (value : Char)
  | template (parts : List Expr)
  | base (d : DeclId)
  | unresolved
  | constructor (d : DeclId)
  | member (primary : Expr) (d : DeclId) (operator : MemberOperator)
  | call (primary : Expr) (arguments : List Expr) (type : Option TypeId)
  | callNamed (primary : Expr) (arguments : List NamedArgument) (type : Option TypeId)
  | unary (operator : UnaryOperator) (operand : Expr)
  | binary (operator : BinaryOperator) (left right : Expr)
  | assign (target value : Expr)
  | paren (inner : Expr)
  | function (d : Option DeclId) (parameters : List (List Parameter)) (body : Body)
  | functionOf (d : DeclId) (result : Expr)

namespace Expressing

def build : Expressing → Build Expr
  | new form type => Build.newExpr form type
  | natural value => Build.natural value
  | float value => Build.float value
  | string value => Build.string value
  | character value => Build.character value
  | template parts => Build.template parts
  | base d => Build.base d
  | unresolved => Build.unresolved
  | constructor d => Build.constructor d
  | member primary d operator => Build.member primary d operator
  | call primary arguments type => Build.call primary arguments type
  | callNamed primary arguments type => Build.callNamed primary arguments type
  | unary operator operand => Build.unary operator operand
  | binary operator left right => Build.binary operator left right
  | assign target value => Build.assign target value
  | paren inner => Build.paren inner
  | function d parameters body => Build.function d parameters body
  | functionOf d result => Build.functionOf d result

open Build

theorem makesExpr (e : Expressing) : MakesExpr e.build := by
  cases e with
  | new form type => exact makesExpr_newExpr form type
  | natural value => exact (Aside.coreType _).newExpr _ _
  | float value => exact (Aside.coreType _).newExpr _ _
  | string value => exact (Aside.coreType _).newExpr _ _
  | character value => exact (Aside.coreType _).newExpr _ _
  | template parts => exact (Aside.coreType _).newExpr _ _
  | base d => exact (Aside.typeOfDeclaration d).newExpr _ _
  | unresolved => exact makesExpr_newExpr _ _
  | constructor d => exact (Aside.typeOf d).newExpr _ _
  | member primary d operator => exact (Aside.typeOfDeclaration d).newExpr _ _
  | call primary arguments type => exact (Aside.callType primary type).newExpr _ _
  | callNamed primary arguments type => exact (Aside.callType primary type).newExpr _ _
  | unary operator operand =>
    exact .ite ((Aside.map some (.coreType _)).newExpr _ _) ((Aside.duplicateOption _).newExpr _ _)
  | binary operator left right =>
    exact .ite ((Aside.map some (.coreType _)).newExpr _ _) ((Aside.duplicateOption _).newExpr _ _)
  | assign target value => exact (Aside.duplicateOption _).newExpr _ _
  | paren inner => exact (Aside.duplicateOption _).newExpr _ _
  | function d parameters body => exact (Aside.coreType _).newExpr _ _
  | functionOf d result => exact Aside.program.makesExpr fun _ => (Aside.coreType _).newExpr _ _

end Expressing

/-! ## Operations -/

inductive Operation where
  | declare (c : Declaring)
  /-- A setter comes with its parameter. -/
  | declareSetter (name : String) (scope : Scope) (type : TypeId)
  | revise (r : Revising)
  | refer (r : Referring)
  | express (e : Expressing)
  | declaration (d : DeclId) (body : Body)
  | specification (target : DeclId) (value : Expr) (isLazy : Bool)

/-- The ids that are handed out, declarations in the order of the table. -/
structure Handed where
  declarations : List DeclId := []
  types : List TypeId := []
  expressions : List ExprId := []

namespace Handed

def declaration (d : DeclId) : Handed := { declarations := [d] }

/-- The parameter of a setter comes before the setter. -/
def setter (x : DeclId × DeclId) : Handed := { declarations := [x.2, x.1] }

def type (t : TypeId) : Handed := { types := [t] }

def expression (e : Expr) : Handed := { expressions := [e.id] }

/-- The reference that a specification is built with is new. -/
def statement : Stmt → Handed
  | .specify target _ _ => expression target
  | _ => {}

def append (h h' : Handed) : Handed where
  declarations := h.declarations ++ h'.declarations
  types := h.types ++ h'.types
  expressions := h.expressions ++ h'.expressions

/-- What is handed out in all. -/
def join (hs : List Handed) : Handed := hs.foldr append {}

end Handed

namespace Operation

def perform : Operation → Build Handed
  | declare c => Handed.declaration <$> c.build
  | declareSetter name scope type => Handed.setter <$> Build.declareSetter name scope type
  | revise r => (fun _ => {}) <$> r.build
  | refer r => Handed.type <$> r.build
  | express e => Handed.expression <$> e.build
  | declaration d body => Handed.statement <$> Build.declaration d body
  | specification target value isLazy => Handed.statement <$> Build.specification target value isLazy

/-- What anything is declared in is there already, and nothing is declared with parameters or members. -/
def fits (p : Program) : Operation → Bool
  | declare c => c.isBlank && p.hasScope c.heading.scope
  | declareSetter _ scope _ => p.hasScope scope
  | _ => true

/-- Every operation fits the program that it is performed on. -/
def fitAll : List Operation → Draft → Bool
  | [], _ => true
  | op :: ops, s => op.fits s.program && fitAll ops (Build.after op.perform s)

/-- What was asked for is in the program under the ids that were handed out. -/
def Stored (p : Program) (h : Handed) : Operation → Prop
  | declare c => ∃ d, h.declarations = [d] ∧ p.Holds d c.heading
  | declareSetter name scope _ => ∃ parameter setter, h.declarations = [parameter, setter] ∧
    p.Holds parameter ⟨some name, .value, .declaration setter⟩ ∧
    p.Holds setter ⟨some name, .setter, scope⟩
  | refer r => ∃ t, h.types = [t] ∧ r.Says p t
  | _ => h.declarations = [] ∧ h.types = []

end Operation

/-- Whatever is there stays there, under its id. -/
structure Program.Keeps (p p' : Program) : Prop where
  holds : ∀ d a, p.Holds d a → p'.Holds d a
  grown : p.Extends p'

theorem Program.Keeps.refl (p : Program) : p.Keeps p := ⟨fun _ _ => id, .refl p⟩

theorem Program.Keeps.trans {p q r : Program} (h : p.Keeps q) (h' : q.Keeps r) : p.Keeps r :=
  ⟨fun d a hd => h'.holds d a (h.holds d a hd), h.grown.trans h'.grown⟩

theorem Operation.Stored.keeps {op : Operation} {h : Handed} {p p' : Program} (hp : p.Keeps p')
    (hs : op.Stored p h) : op.Stored p' h := by
  cases op with
  | declare c => exact hs.imp fun d hd => ⟨hd.1, hp.holds _ _ hd.2⟩
  | declareSetter name scope type =>
    obtain ⟨parameter, setter, heq, hparameter, hsetter⟩ := hs
    exact ⟨parameter, setter, heq, hp.holds _ _ hparameter, hp.holds _ _ hsetter⟩
  | refer r => exact hs.imp fun t ht => ⟨ht.1, ht.2.extends hp.grown⟩
  | _ => exact hs

/-! ## One operation -/

/-- The ids from one number up to another. -/
def Id.span {e : Entity} (first next : Nat) : List (Id e) :=
  (List.range' first (next - first)).map Id.mk

theorem Id.span_self {e : Entity} (a : Nat) : (Id.span a a : List (Id e)) = [] := by
  rw [span, Nat.sub_self]
  rfl

theorem Id.span_add {e : Entity} (a k : Nat) :
    (Id.span a (a + k) : List (Id e)) = (List.range' a k).map Id.mk := by
  rw [span, Nat.add_sub_cancel_left]

theorem Id.span_append {e : Entity} {a b c : Nat} (hab : a ≤ b) (hbc : b ≤ c) :
    Id.span a b ++ Id.span b c = (Id.span a c : List (Id e)) := by
  obtain ⟨j, rfl⟩ := Nat.exists_eq_add_of_le hab
  obtain ⟨k, rfl⟩ := Nat.exists_eq_add_of_le hbc
  rw [span_add, span_add, ← List.map_append, List.range'_append_1, Nat.add_assoc, span_add]

theorem Id.nodup_span {e : Entity} (a b : Nat) : (Id.span a b : List (Id e)).Nodup :=
  List.Nodup.map (fun _ _ => Id.mk.inj) List.nodup_range'

/-- Whatever was there is kept, and the declarations and expressions that are new are handed out in
order. -/
structure Draft.Step (s : Draft) (h : Handed) (t : Draft) : Prop where
  tidy : s.program.Tidy → t.program.Tidy
  keeps : s.program.Keeps t.program
  size : s.program.decls.size ≤ t.program.decls.size
  nextExpr : s.nextExpr ≤ t.nextExpr
  declarations : h.declarations = Id.span s.program.decls.size t.program.decls.size
  expressions : h.expressions = Id.span s.nextExpr t.nextExpr

namespace Draft
variable {s t u : Draft} {h h' : Handed}

theorem Step.refl (s : Draft) : s.Step {} s where
  tidy := id
  keeps := .refl s.program
  size := Nat.le_refl _
  nextExpr := Nat.le_refl _
  declarations := (Id.span_self _).symm
  expressions := (Id.span_self _).symm

theorem Step.trans (hst : s.Step h t) (htu : t.Step h' u) : s.Step (h.append h') u where
  tidy := htu.tidy ∘ hst.tidy
  keeps := hst.keeps.trans htu.keeps
  size := hst.size.trans htu.size
  nextExpr := hst.nextExpr.trans htu.nextExpr
  declarations := by
    rw [← Id.span_append hst.size htu.size, ← hst.declarations, ← htu.declarations]
    rfl
  expressions := by
    rw [← Id.span_append hst.nextExpr htu.nextExpr, ← hst.expressions, ← htu.expressions]
    rfl

theorem Becomes.step {k : Nat} (hb : s.Becomes s.program.decls.size k t)
    (hdecls : h.declarations = (List.range' s.program.decls.size k).map Id.mk)
    (hexprs : h.expressions = []) : s.Step h t where
  tidy := hb.changes.tidy
  keeps := ⟨fun _ _ hd => hd.stays (Program.hasDecl_iff.mp hd.hasDecl) hb.changes hb.grown, hb.grown⟩
  size := by
    rw [hb.size]
    exact Nat.le_add_right _ _
  nextExpr := Nat.le_of_eq hb.nextExpr.symm
  declarations := by rw [hb.size, Id.span_add, hdecls]
  expressions := by rw [hb.nextExpr, Id.span_self, hexprs]

theorem Step.of_makesExpr {m : Build Expr} (hm : Build.MakesExpr m) (s : Draft) :
    s.Step (.expression (Build.result m s)) (Build.after m s) := by
  obtain ⟨hid, hexpr, hdecls, hgrown⟩ := hm s
  have hchanges {n : Nat} : Program.Changes n s.program (Build.after m s).program := .of_decls_eq hdecls
  refine ⟨(hchanges (n := 0)).tidy, ⟨fun d a hd => ?_, hgrown⟩, ?_, ?_, ?_, ?_⟩
  · exact hd.stays (Program.hasDecl_iff.mp hd.hasDecl) hchanges hgrown
  · rw [hdecls]
  · rw [hexpr]
    exact Nat.le_succ _
  · rw [hdecls, Id.span_self]
    rfl
  · rw [hexpr, Id.span_add]
    exact congrArg ([·]) hid

end Draft

namespace Operation
open Build
variable {s : Draft} {op : Operation} {ops : List Operation}

theorem step (hs : s.program.Tidy) (hfit : op.fits s.program = true) :
    s.Step (result op.perform s) (after op.perform s) ∧
      op.Stored (after op.perform s).program (result op.perform s) := by
  cases op with
  | declare c =>
    obtain ⟨hblank, hscope⟩ := Bool.and_eq_true_iff.mp hfit
    have hg := c.gets hs hblank hscope
    refine ⟨(hg.becomes _).step ?_ rfl, _, rfl, hg.holds⟩
    exact congrArg ([·]) hg.id
  | declareSetter name scope type =>
    obtain ⟨setter, hindex, hresult, hb, hholds⟩ := declareSetter_gets name scope type hfit
    have hhanded : result (declareSetter name scope type).perform s =
        { declarations := [s.program.nextDecl, setter] } := congrArg Handed.setter hresult
    rw [hhanded]
    refine ⟨hb.step ?_ rfl, _, _, rfl, hholds⟩
    exact congrArg ([s.program.nextDecl, ·]) (congrArg Id.mk hindex)
  | revise r => exact ⟨(r.becomes _ s).step rfl rfl, rfl, rfl⟩
  | refer r => exact ⟨(r.aside.becomes _ s).step rfl rfl, _, rfl, r.says_build s⟩
  | express e => exact ⟨.of_makesExpr e.makesExpr s, rfl, rfl⟩
  | declaration d body => exact ⟨((Aside.declaration d body).becomes _ s).step rfl rfl, rfl, rfl⟩
  | specification target value isLazy =>
    exact ⟨.of_makesExpr (Expressing.base target).makesExpr s, rfl, rfl⟩

/-! ## Sequences of operations -/

/-- By induction on the operations, from any draft: what the first one stores is kept by the others. -/
theorem run (hs : s.program.Tidy) (hfit : fitAll ops s = true) :
    s.Step (.join (result (ops.mapM perform) s)) (after (ops.mapM perform) s) ∧
      List.Forall₂ (fun op h => op.Stored (after (ops.mapM perform) s).program h) ops
        (result (ops.mapM perform) s) := by
  induction ops generalizing s with
  | nil => exact ⟨.refl s, .nil⟩
  | cons op ops ih =>
    obtain ⟨hop, hops⟩ := Bool.and_eq_true_iff.mp hfit
    obtain ⟨hstep, hstored⟩ := step hs hop
    obtain ⟨hrest, hothers⟩ := ih (hstep.tidy hs) hops
    rw [List.mapM_cons]
    exact ⟨hstep.trans hrest, .cons (hstored.keeps hrest.keeps) hothers⟩

end Operation

/-! ## Programs built from the core declarations -/

/-- What there is to check of each declaration of a table. -/
def Program.isTidyAt (p : Program) (d : DeclId) (x : Declaration) : Bool :=
  (!x.isClassOrInterface || decide (x.members = p.contents d)) &&
    decide (∀ q ∈ x.parameterLists.flatten, p.ParameterOf d q) &&
    decide x.parameterLists.flatten.Nodup && p.hasScope x.scope

theorem Program.tidy_of_isTidyAt {p : Program}
    (h : ∀ i < p.decls.size, ∀ x ∈ p.decl? ⟨i⟩, p.isTidyAt ⟨i⟩ x = true) : p.Tidy := by
  have hall (d : DeclId) (x : Declaration) (hx : x ∈ p.decl? d) :
      (x.isClassOrInterface = true → x.members = p.contents d) ∧
        (∀ q ∈ x.parameterLists.flatten, p.ParameterOf d q) ∧
        x.parameterLists.flatten.Nodup ∧ p.hasScope x.scope = true := by
    have hd := h d.index (hasDecl_iff.mp (hasDecl_of_decl? hx)) x hx
    simp only [isTidyAt, Bool.and_eq_true, Bool.or_eq_true, Bool.not_eq_true', decide_eq_true_eq] at hd
    obtain ⟨⟨⟨hmembers, hparameters⟩, hnodup⟩, hscope⟩ := hd
    refine ⟨fun hclass => hmembers.resolve_left ?_, hparameters, hnodup, hscope⟩
    rw [hclass]
    exact Bool.noConfusion
  exact ⟨fun d x hx => (hall d x hx).1, fun d x hx => (hall d x hx).2.1, fun d x hx => (hall d x hx).2.2.1,
    fun d x hx => hasDecl_of_hasScope (hall d x hx).2.2.2⟩

theorem Draft.tidy_new : Draft.new.program.Tidy :=
  Program.tidy_of_isTidyAt (by decide +kernel)

theorem Draft.holds_core_new (e : String × DeclId) (he : e ∈ Draft.new.program.core.entries) :
    ∃ c, Draft.new.program.Holds e.2 ⟨some e.1, c, .unit⟩ := by
  have hall : ∀ e ∈ Draft.new.program.core.entries, ∃ x ∈ Draft.new.program.decl? e.2,
      (∃ y ∈ x.name, Draft.new.program.names.text? y = some e.1) ∧ x.scope = .unit := by
    decide +kernel
  obtain ⟨x, hx, ⟨y, hy, htext⟩, hscope⟩ := hall e he
  refine ⟨x.kind.category, x, hx, ?_, rfl, hscope⟩
  rw [Option.mem_def.mp hy]
  exact .some htext

theorem Draft.nextExpr_new : Draft.new.nextExpr = 0 := by decide +kernel

/-- What holds of the draft that a sequence of operations leaves, with the ids that it handed out. -/
structure Draft.Sound (s : Draft) (ops : List Operation) (answers : List Handed) : Prop where
  /-- The declarations have the ids after those of the core declarations, in order of creation. -/
  declarations : (Handed.join answers).declarations =
    Id.span Draft.new.program.decls.size s.program.decls.size
  /-- What was asked for is found under its id. -/
  stored : List.Forall₂ (fun op h => op.Stored s.program h) ops answers
  core : ∀ e ∈ s.program.core.entries, ∃ c, s.program.Holds e.2 ⟨some e.1, c, .unit⟩
  /-- The members of a class or interface are what is declared in it, once each and in order of creation,
  type parameters apart. -/
  members : ∀ d, ∀ x ∈ s.program.decl? d, x.isClassOrInterface = true →
    x.members = s.program.contents d
  /-- What is in a parameter list is marked as a parameter, stands in the owner of the list and comes
  after it. -/
  parameters : ∀ d, ∀ x ∈ s.program.decl? d, ∀ q ∈ x.parameterLists.flatten, s.program.ParameterOf d q
  /-- Nothing is twice in all parameter lists together. -/
  listed : s.program.listed.Nodup
  expressions : (Handed.join answers).expressions = Id.span 0 s.nextExpr
  distinct : (Handed.join answers).expressions.Nodup
  /-- The parameters in a tree are the only ones that show the recorded lists, at any depth. -/
  mirrors : ∀ d nodes, List.Forall₂ (List.Forall₂ s.program.Mirrors) (s.program.listsOf d) nodes ↔
    nodes = s.program.parameters d
  /-- To go down further than there are declarations finds nothing more. -/
  depth : ∀ d depth, s.program.decls.size < depth + d.index →
    s.program.parametersTo depth d = s.program.parameters d

namespace Operation
open Build

theorem sound_of_fitAll (ops : List Operation) (hfit : fitAll ops Draft.new = true) :
    (after (ops.mapM perform) Draft.new).Sound ops (result (ops.mapM perform) Draft.new) := by
  obtain ⟨hstep, hstored⟩ := run Draft.tidy_new hfit
  have htidy := hstep.tidy Draft.tidy_new
  have hexpressions := hstep.expressions
  rw [Draft.nextExpr_new] at hexpressions
  refine ⟨hstep.declarations, hstored, fun e he => ?_, htidy.members, htidy.parameters,
    htidy.nodup_listed, hexpressions, ?_, htidy.mirrors_iff, fun d _ => htidy.parametersTo_eq⟩
  · rw [hstep.keeps.grown.core] at he
    exact (Draft.holds_core_new e he).imp fun c => hstep.keeps.holds _ _
  · rw [hexpressions]
    exact Id.nodup_span _ _

/-- A class with a parameter and a method; an interface with a method that takes a function, with a setter
and with a type parameter. -/
def sample : List Operation :=
  [.refer (.core Core.integer),
    .declare (.classWithParameters "Point" .unit),
    .declare (.parameter ⟨25⟩ "x" ⟨22⟩),
    .declare (.interfaceType "Shape" .unit),
    .declare (.method (some "scale") (.declaration ⟨27⟩) ⟨22⟩),
    .declare (.functionalParameter ⟨28⟩ "by" ⟨22⟩),
    .declare (.parameter ⟨29⟩ "factor" ⟨22⟩),
    .revise (.addParameterList ⟨28⟩),
    .declare (.parameter ⟨28⟩ "times" ⟨22⟩),
    .declareSetter "area" (.declaration ⟨27⟩) ⟨22⟩,
    .declare (.typeParameter ⟨27⟩ "Unit" []),
    .declare (.voidMethod "draw" (.declaration ⟨25⟩)),
    .express (.natural 3),
    .express (.base ⟨26⟩)]

theorem sound_of_fitAll_sample : fitAll sample Draft.new = true ∧
    (after (sample.mapM perform) Draft.new).Sound sample (result (sample.mapM perform) Draft.new) ∧
    (after (sample.mapM perform) Draft.new).program.listsOf ⟨28⟩ = [[⟨29⟩], [⟨31⟩]] ∧
    (after (sample.mapM perform) Draft.new).program.contents ⟨27⟩ = [⟨28⟩, ⟨33⟩] := by
  have hfit : fitAll sample Draft.new = true := by decide +kernel
  exact ⟨hfit, sound_of_fitAll sample hfit, by decide +kernel, by decide +kernel⟩

end Operation

end Unbox
