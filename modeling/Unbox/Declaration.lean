import Unbox.Id
import Unbox.Names
import Unbox.Location
import Unbox.Modifiers

/-!
# Declarations

* `Scope` : where a declaration lives;
* `Kind` : what it declares, with the data of that kind;
* `Declaration` : a declaration as the checker hands it over. Nothing in it is ever written by the
  analyses: what they find out is kept in `Marks`.
-/

namespace Unbox

/-- The scope that a declaration lives in. -/
inductive Scope where
  /-- The top level of a unit. -/
  | unit
  /-- A member, parameter or type parameter of the declaration. -/
  | declaration (owner : DeclId)
  /-- The statement that specifies the declaration. -/
  | specification (specified : DeclId)
  /-- A control block in the body of the declaration. -/
  | block (owner : DeclId)
deriving DecidableEq

namespace Scope

/-- The declaration that the scope is, for declaration and specification scopes. -/
def declaration? : Scope → Option DeclId
  | declaration d | specification d => some d
  | unit | block _ => none

/-- The nearest declaration around the scope. -/
def owner? : Scope → Option DeclId
  | declaration d | specification d | block d => some d
  | unit => none

end Scope

inductive Variance where
  | invariant
  | covariant
  | contravariant
deriving DecidableEq

structure MethodShape where
  lists : List (List DeclId) := []
  /-- Declared with `void` in place of a result type. -/
  declaredVoid : Bool := false

structure ClassShape where
  list : Option (List DeclId) := none
  extended : Option TypeId := none
  satisfied : List TypeId := []
  members : List DeclId := []

structure InterfaceShape where
  satisfied : List TypeId := []
  members : List DeclId := []

structure TypeParameterShape where
  variance : Variance
  bounds : List TypeId := []

inductive Kind where
  | value
  | method (shape : MethodShape)
  | setter (parameter : DeclId)
  | classType (shape : ClassShape)
  | interfaceType (shape : InterfaceShape)
  | typeAlias (target : Option TypeId)
  | typeParameter (shape : TypeParameterShape)

structure Declaration where
  /-- Absent for function literals. -/
  name : Option Symbol
  kind : Kind
  scope : Scope
  /-- The type of a value, the result type of a method. -/
  type : Option TypeId := none
  /-- The declaration that this one refines directly. -/
  refined : Option DeclId := none
  modifiers : Modifiers := {}
  typeParameters : List DeclId := []
  location : Location := .unknown

namespace Declaration
variable (d : Declaration)

def isShared : Bool := d.modifiers.has .shared
def isActual : Bool := d.modifiers.has .actual
def isFormal : Bool := d.modifiers.has .formal
def isParameter : Bool := d.modifiers.has .parameter
def isMutable : Bool := d.modifiers.has .mutable
def isToplevel : Bool := d.modifiers.has .toplevel
def isAlias : Bool := d.modifiers.has .synonym
def isCaptured : Bool := d.modifiers.has .captured
def isSmall : Bool := d.modifiers.has .small
def isShortcutRefinement : Bool := d.modifiers.has .shortcutRefinement

def isMethod : Bool := d.kind matches .method _
def isValue : Bool := d.kind matches .value
def isClass : Bool := d.kind matches .classType _
def isInterface : Bool := d.kind matches .interfaceType _
def isTypeParameter : Bool := d.kind matches .typeParameter _
def isClassOrInterface : Bool := d.isClass || d.isInterface

/-- A parameter that takes parameters itself. -/
def isFunctionalParameter : Bool := d.isMethod && d.isParameter

def isValueParameter : Bool := d.isValue && d.isParameter

/-- The parameter lists of a method, or the one list of a class. -/
def parameterLists : List (List DeclId) :=
  match d.kind with
  | .method m => m.lists
  | .classType c => c.list.toList
  | _ => []

/-- Whether the declaration takes parameters at all. -/
def isFunctional : Bool :=
  match d.kind with
  | .method _ => true
  | .classType c => c.list.isSome
  | _ => false

def hasSeveralLists : Bool := 1 < d.parameterLists.length

def members : List DeclId :=
  match d.kind with
  | .classType c => c.members
  | .interfaceType i => i.members
  | _ => []

/-- Satisfied interfaces, or the bounds of a type parameter. -/
def satisfied : List TypeId :=
  match d.kind with
  | .classType c => c.satisfied
  | .interfaceType i => i.satisfied
  | .typeParameter t => t.bounds
  | _ => []

/-- The bounds of a type parameter. -/
def bounds? : Option (List TypeId) :=
  match d.kind with
  | .typeParameter t => some t.bounds
  | _ => none

theorem isTypeParameter_of_bounds? {d : Declaration} {bounds : List TypeId}
    (h : d.bounds? = some bounds) : d.isTypeParameter = true := by
  unfold bounds? at h
  split at h
  · next hk => simp [isTypeParameter, hk]
  · cases h

def extended : Option TypeId :=
  match d.kind with
  | .classType c => c.extended
  | _ => none

/-- Extended class first, then what is satisfied. -/
def supertypes : List TypeId := d.extended.toList ++ d.satisfied

def kindName : String :=
  match d.kind with
  | .value => if d.isParameter then "parameter" else "value"
  | .method _ => if d.isParameter then "functional parameter" else "method"
  | .setter _ => "setter"
  | .classType _ => "class"
  | .interfaceType _ => "interface"
  | .typeAlias _ => "type alias"
  | .typeParameter _ => "type parameter"

/-- Declarations of the same kind, a setter counting as its value, whose parameter lists have the
same lengths. -/
def sameSignature (a b : Declaration) : Bool :=
  let kinds := match a.kind, b.kind with
    | .value, .value | .value, .setter _ | .setter _, .value | .setter _, .setter _ => true
    | .method _, .method _ | .classType _, .classType _ => true
    | _, _ => false
  kinds && a.parameterLists.map List.length == b.parameterLists.map List.length

end Declaration

end Unbox
