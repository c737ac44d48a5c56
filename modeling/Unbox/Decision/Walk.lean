import Unbox.Decision
import Unbox.Tree
import Unbox.TypeGraph

/-!
# Deciding the declarations of a tree

Every declaration that a tree introduces is decided, at any depth: declared values and methods,
parameters, the variables of conditions, bindings and iterations, function literals and named
arguments. What stands inside is decided before what it stands in, except that a functional
parameter that becomes a method comes before its own parameters.
-/

namespace Unbox.Context
open Decide
variable (c : Context)

/-- A value declared without a type has the type of its initial value, but not the narrow machine
representation that the initial value may have. -/
def stripUnderlying (head : DeclareHead) : Body → Decide Unit
  | .value initial => do
    if head.inferred then
      match c.program.decl? head.declaration >>= Declaration.type, initial.type with
      | some declared, some type =>
        if c.program.exactly declared type then modifyMarks (·.setUnderlying declared none)
      | _, _ => return
  | _ => return

/-- Decides a declared entity once its parameters and its body are done. -/
def visitDeclared (d : DeclId) (location : Location) (kind : Kind) : Decide Unit :=
  match kind with
  | .value => c.visitValue d
  | .method _ => c.visitMethod d
  | .setter parameter => do
    let _ ← c.lookupAt location parameter
    c.decideValue parameter
  | .classType _ | .interfaceType _ | .typeAlias _ => return
  | .typeParameter _ => c.visitTypeParameter location d

/-- The function literal and the method it stands for in the specification of `method`. -/
def shortcutOf (method : DeclId) (isMethod isLazy : Bool) (value : Expr) :
    Option (DeclId × DeclId) :=
  match isMethod, isLazy, value.unwrap with
  | true, false, .mk _ (.function (some literal) _ _) => some (literal, method)
  | _, _, _ => none

mutual

def walk : Expr → Decide Unit
  | .mk _ (.literal _) | .mk _ (.base _ _) | .mk _ (.constructor _) | .mk _ (.typeLiteral _)
  | .mk _ .this | .mk _ .super | .mk _ .outer => return
  | .mk _ (.template es) | .mk _ (.tuple es) | .mk _ (.sequence es) => walkAll es
  | .mk _ (.member e _ _ _) | .mk _ (.paren e) | .mk _ (.unary _ e) | .mk _ (.present e)
  | .mk _ (.nonempty e) | .mk _ (.isOf e _) | .mk _ (.spread e) => walk e
  | .mk _ (.call f es) => do
    walk f
    walkAll es
  | .mk _ (.callNamed f as) => do
    walk f
    walkNamed as
  | .mk _ (.binary _ a b) | .mk _ (.assign a b) | .mk _ (.element a b) => do
    walk a
    walk b
  | .mk _ (.within a b d) => do
    walk a
    walk b
    walk d
  | .mk _ (.choose cs yes no) => do
    walkConditions cs
    walk yes
    walk no
  | .mk _ (.switch e cs otherwise) => do
    walk e
    walkCases cs
    walkOption otherwise
  | .mk _ (.letIn bs result) => do
    walkBindings bs
    walk result
  | .mk n (.function literal lists body) => do
    walkLists lists
    walkBody body
    literal.forM fun d => do
      let _ ← c.lookupAt n.location d
      countVisit
      force d
  | .mk _ (.span e first last) => do
    walk e
    walkOption first
    walkOption last
  | .mk _ (.comprehension clause) => walkClause clause

def walkAll : List Expr → Decide Unit
  | [] => return
  | e :: es => do
    walk e
    walkAll es

def walkOption : Option Expr → Decide Unit
  | none => return
  | some e => walk e

def walkNamed : List NamedArgument → Decide Unit
  | [] => return
  | .specified _ e :: as => do
    walk e
    walkNamed as
  | .attribute d body :: as => do
    walkBody body
    let _ ← c.lookup d
    countVisit
    c.decideValue d
    walkNamed as
  | .method d lists body :: as => do
    walkLists lists
    walkBody body
    let _ ← c.lookup d
    countVisit
    force d
    walkNamed as
  | .sequenced es :: as => do
    walkAll es
    walkNamed as

def walkConditions : List Condition → Decide Unit
  | [] => return
  | .mk test e :: cs => do
    walk e
    test.variable?.forM c.visitVariable
    walkConditions cs

def walkBindings : List Binding → Decide Unit
  | [] => return
  | .mk d e :: bs => do
    walk e
    let _ ← c.lookupAt e.location d
    c.visitVariable d
    walkBindings bs

def walkCases : List ValueCase → Decide Unit
  | [] => return
  | .mk es result :: cs => do
    walkAll es
    walk result
    walkCases cs

/-- The variables of the conditions of a comprehension are boxed whatever their type. -/
def walkClause : Clause → Decide Unit
  | .forIn pattern e next => do
    walk e
    pattern.variables.forM (c.visitIterated e.location)
    walkClause next
  | .onlyIf cs next => do
    (cs.filterMap Condition.variable?).forM fun d => do
      let _ ← c.lookup d
      force d
    walkConditions cs
    walkClause next
  | .yield e => walk e

def walkParameters : List Parameter → Decide Unit
  | [] => return
  | .value d initial :: ps => do
    let x ← c.lookup d
    walkOption initial
    countVisit
    let _ ← MonadExcept.ofExcept (c.program.parameterized d x)
    c.visitValue d
    walkParameters ps
  | .functional d initial lists :: ps => do
    let x ← c.lookup d
    walkOption initial
    countVisit
    if c.policy.createsMethod c.program d then
      c.visitMethod d
      walkLists lists
    else
      walkLists lists
      let _ ← MonadExcept.ofExcept (c.program.parameterized d x)
      c.visitValue d
    walkParameters ps

def walkLists : List (List Parameter) → Decide Unit
  | [] => return
  | ps :: lists => do
    walkParameters ps
    walkLists lists

def walkBody : Body → Decide Unit
  | .absent => return
  | .value e => walk e
  | .block ss => walkBlock ss

def walkStmt : Stmt → Decide Unit
  | .declare head lists body => do
    let x ← c.lookupAt head.location head.declaration
    if x.isValue then c.stripUnderlying head body
    walkLists lists
    walkBody body
    head.typeParameters.forM (c.visitTypeParameter head.location)
    countVisit
    c.visitDeclared head.declaration head.location x.kind
  | .specify target value isLazy =>
    match target.referenced with
    | none => do
      walk target
      walk value
    | some d => do
      let x ← c.lookupAt target.location d
      match shortcutOf d x.isMethod isLazy value with
      | some (literal, method) =>
        standingFor literal method do
          walk target
          walk value
      | none => do
        walk target
        walk value
      if x.isMethod then c.visitMethod d
      else if x.isValue then c.visitValue d
  | .evaluate e => walk e
  | .returns e | .throws e => walkOption e
  | .ifElse cs yes no => do
    walkConditions cs
    walkBlock yes
    walkBlock no
  | .whileDo cs body => do
    walkConditions cs
    walkBlock body
  | .forIn pattern e body otherwise => do
    walk e
    pattern.variables.forM (c.visitIterated e.location)
    walkBlock body
    walkBlock otherwise
  | .switch e cs otherwise => do
    walk e
    walkBlockCases cs
    walkBlock otherwise
  | .block ss => walkBlock ss
  | .breaks | .continues => return

def walkBlock : List Stmt → Decide Unit
  | [] => return
  | s :: ss => do
    walkStmt s
    walkBlock ss

def walkBlockCases : List BlockCase → Decide Unit
  | [] => return
  | .mk es body :: cs => do
    walkAll es
    walkBlock body
    walkBlockCases cs

end

/-- Decides every declaration of a unit. -/
def decideUnit (u : SourceUnit) : Decide Unit := c.walkBlock u.statements

end Unbox.Context
