import Unbox.Draft
import Unbox.Tree

/-!
# Building trees

Every expression that is built gets the next free id, the current place, and a type reference of
its own where its parts determine one.
-/

namespace Unbox

/-- The parameters of a declaration as they stand in a tree, functional ones with their own
parameters to the given depth. -/
def Program.parametersTo (p : Program) : Nat → DeclId → List (List Parameter)
  | 0, _ => []
  | depth + 1, d =>
    match p.decl? d with
    | none => []
    | some x =>
      x.parameterLists.map fun list => list.map fun q =>
        if (p.decl? q).any Declaration.isMethod then .functional q none (parametersTo p depth q)
        else .value q none

/-- The parameters of a declaration as they stand in a tree. -/
def Program.parameters (p : Program) (d : DeclId) : List (List Parameter) :=
  p.parametersTo (p.decls.size + 1) d

namespace Build

/-- An expression of the given form at the current place. -/
def newExpr (form : Form) (type : Option TypeId) : Build Expr :=
  modifyGet fun s =>
    (.mk ⟨⟨s.nextExpr⟩, type, s.location, {}⟩ form, { s with nextExpr := s.nextExpr + 1 })

/-- A new reference to the type of a declaration. -/
def typeOfDeclaration (d : DeclId) : Build (Option TypeId) := do
  duplicateOption ((← program).decl? d >>= Declaration.type)

/-! ## Literals -/

def natural (value : Nat) : Build Expr := do
  newExpr (.literal (.natural value)) (← coreType Core.integer)

def float (value : Float) : Build Expr := do
  newExpr (.literal (.float value)) (← coreType Core.float)

def string (value : String) : Build Expr := do
  newExpr (.literal (.string value)) (← coreType Core.string)

def character (value : Char) : Build Expr := do
  newExpr (.literal (.character value)) (← coreType Core.character)

def template (parts : List Expr) : Build Expr := do
  newExpr (.template parts) (← coreType Core.string)

/-! ## References -/

def base (d : DeclId) : Build Expr := do
  newExpr (.base (some d) []) (← typeOfDeclaration d)

/-- A reference that the checker could not resolve. -/
def unresolved : Build Expr := newExpr (.base none []) none

def constructor (d : DeclId) : Build Expr := do
  newExpr (.constructor (some d)) (← typeOf d)

def member (primary : Expr) (d : DeclId) (operator : MemberOperator) : Build Expr := do
  newExpr (.member primary (some d) operator []) (← typeOfDeclaration d)

/-! ## Composite expressions -/

/-- The result type of a call is that of the callee unless another is given. -/
def callType (primary : Expr) : Option TypeId → Build (Option TypeId)
  | some t => return some t
  | none => duplicateOption primary.type

def call (primary : Expr) (arguments : List Expr) (type : Option TypeId) : Build Expr := do
  newExpr (.call primary arguments) (← callType primary type)

def callNamed (primary : Expr) (arguments : List NamedArgument) (type : Option TypeId) :
    Build Expr := do
  newExpr (.callNamed primary arguments) (← callType primary type)

def unary (operator : UnaryOperator) (operand : Expr) : Build Expr := do
  let type ←
    if operator = .not then some <$> coreType Core.boolean else duplicateOption operand.type
  newExpr (.unary operator operand) type

/-- The type of an operation is a truth value or that of its left operand. -/
def binary (operator : BinaryOperator) (left right : Expr) : Build Expr := do
  let type ←
    if operator.yieldsTruth then some <$> coreType Core.boolean else duplicateOption left.type
  newExpr (.binary operator left right) type

def assign (target value : Expr) : Build Expr := do
  newExpr (.assign target value) (← duplicateOption target.type)

def paren (inner : Expr) : Build Expr := do
  newExpr (.paren inner) (← duplicateOption inner.type)

/-- A function literal of the given parts. -/
def function (d : Option DeclId) (parameters : List (List Parameter)) (body : Body) :
    Build Expr := do
  newExpr (.function d parameters body) (← coreType Core.callable)

/-- A function literal with the parameters of its declaration. -/
def functionOf (d : DeclId) (result : Expr) : Build Expr := do
  function (some d) ((← program).parameters d) (.value result)

/-! ## Statements -/

/-- A declaration statement at the current place, with the parameters of the declaration. -/
def declaration (d : DeclId) (body : Body) : Build Stmt := do
  let s ← get
  let typeParameters := ((s.program.decl? d).map Declaration.typeParameters).getD []
  return .declare ⟨d, typeParameters, false, s.location⟩ (s.program.parameters d) body

def specification (target : DeclId) (value : Expr) (isLazy : Bool) : Build Stmt := do
  return .specify (← base target) value isLazy

end Build

end Unbox
