import Unbox.Refinement
import Unbox.Tree
import Unbox.TypeGraph

/-!
# Rules: the flags of an expression

Every form of expression has one rule. It gives the flags of an expression from those of its parts
and from the marks of the declarations that it refers to.

* `View` : what a rule may look at;
* `Finding` : what it gives: the flags, and the marks with what was settled on the way;
* `View.rule` : the rules.
-/

namespace Unbox

/-- The raw mark may be on the expression or on its type. -/
def Expr.isRaw (e : Expr) (m : Marks) : Bool := e.flags.raw || e.type.any m.raw

/-- A program with the marks found so far, seen from within the given declarations. -/
structure View extends Target where
  marks : Marks
  /-- The declarations around the expression, innermost first. -/
  scopes : List DeclId

structure Finding where
  flags : Flags
  marks : Marks
  /-- An indexed expression for which no accessor was found. -/
  unresolved : Bool := false

/-! ## Accessors -/

namespace Program
variable (p : Program)

/-- What is declared directly above a declaration, whether it is in the table or not. -/
def above (d : DeclId) : List DeclId :=
  match p.decl? d with
  | some x => x.supertypes.filterMap p.typeDeclaration?
  | none => []

def isMethodNamed (y : Symbol) (d : DeclId) : Bool :=
  (p.decl? d).any fun x => x.name == some y && x.isMethod

def methodIn (y : Symbol) (owner : DeclId) : Option DeclId :=
  p.decl? owner >>= fun x => x.members.find? (p.isMethodNamed y)

/-- The method of this name of `owner` or of what is above it, nearest first. The search ends at a
declaration that is not in the table. -/
def accessor? (owner : DeclId) (name : String) : Option DeclId := do
  let y ← p.names.symbol? name
  ((breadthFirst p.above (p.decls.size + 1) [] [owner]).takeWhile p.hasDecl).findSome?
    (p.methodIn y)

end Program

namespace View
variable (v : View)

def declarationFlags (d : DeclId) (x : Declaration) : Flags where
  unboxed := v.marks.isUnboxed d
  typeErased := v.marks.typeErased d
  raw := x.type.any v.marks.raw
  untrusted := v.marks.isUntrusted d

def isBasic (t : Option TypeId) : Bool := t.any (v.policy.isBasic v.program)

/-! ## References -/

def baseFlags (location : Location) (d : DeclId) : Except Failure Flags := do
  let x ← v.program.decl d location
  let flags := v.declarationFlags d x
  let constant := v.policy.isTrue v.program d || v.policy.isFalse v.program d
  return { flags with unboxed := flags.unboxed || constant }

/-- A type parameter that keeps no bound and is declared outside of the scopes around. -/
def isForeignErased (t : TypeId) : StateM BoundMarks Bool :=
  match v.program.form? t with
  | some (.typeParameter d) =>
    if (v.program.ownerOf? d).any v.scopes.contains then return false
    else return !(← v.policy.keepsBound v.program d)
  | _ => return false

def mentionsForeignErased (t : TypeId) : StateM BoundMarks Bool :=
  v.program.anyNested v.isForeignErased t

/-- Reached through a raw expression, or from `super` in a generic interface. -/
def erasedThrough (primary : Expr) (member : Declaration) : Bool :=
  (primary.isRaw v.marks && member.type.any v.program.mentionsTypeParameter) ||
    ((primary.unwrap.form matches .super) && (v.program.container? member).any fun owner =>
      owner.isInterface && !owner.typeParameters.isEmpty)

def memberFinding (location : Location) (primary : Expr) (d : DeclId) (operator : MemberOperator) :
    Except Failure Finding := do
  let x ← v.program.decl d location
  let flags := v.declarationFlags d x
  let flags := { flags with typeErased := flags.typeErased || v.erasedThrough primary x }
  match operator with
  | .plain =>
    let unboxed :=
      if v.isBasic primary.type && primary.flags.unboxed then v.isBasic x.type else flags.unboxed
    return ⟨{ flags with unboxed }, v.marks, false⟩
  | .spread => return ⟨{ flags with unboxed := false }, v.marks, false⟩
  | .safe =>
    let question := match x.type with
      | some t => v.mentionsForeignErased t
      | none => pure false
    let (foreign, bounds) := question v.marks.bounds
    let flags := { flags with unboxed := false, untrusted := flags.untrusted || foreign }
    return ⟨flags, { v.marks with bounds }, false⟩

/-- A reference to a method that is not called. -/
def denotesMethod (e : Expr) : Bool :=
  (e.unwrap.referenced >>= v.program.decl?).any Declaration.isMethod

def parenFlags (inner : Expr) : Flags :=
  { inner.flags with unboxed := inner.flags.unboxed && !v.denotesMethod inner }

/-! ## Calls -/

/-- One number as the only argument, with or without a sign. -/
def isNumberArgument : List Expr → Bool
  | [argument] =>
    match argument.unwrap with
    | .mk _ (.literal l) => l.isNumber
    | .mk _ (.unary operator operand) => operator.isSign && operand.isNumberLiteral
    | _ => false
  | _ => false

/-- The method returns a type parameter as such, and the call is raw or has an argument for it that
erases. -/
def hasGenericResult (method : Declaration) (typeArguments : List TypeId) (isRaw : Bool) : Bool :=
  method.type.any v.program.isTypeParameterUse &&
    (isRaw || typeArguments.any fun t =>
      v.policy.hasErasure v.program t || v.policy.erasesToObject v.program t)

/-- The flags of what is called, made untrusted by a generic result. -/
def resultFlags (flags : Flags) (isGeneric : Bool) : Flags :=
  { flags with
    raw := false
    typeErased := flags.typeErased || isGeneric
    untrusted := flags.untrusted || isGeneric }

def callFlags (location : Location) (primary : Expr) (arguments : List Expr) :
    Except Failure Flags := do
  let target := primary.unwrap
  let isRaw := primary.isRaw v.marks
  let some d := target.referenced | return { typeErased := isRaw }
  let x ← v.program.decl d location
  if !x.isMethod && !x.isClass then
    return { typeErased := isRaw }
  if x.isClass && v.program.core.isNumericClass d && isNumberArgument arguments then
    return { unboxed := true }
  return resultFlags primary.flags (v.hasGenericResult x target.typeArguments isRaw)

/-- An indexed expression is a call of the accessor of this name. -/
def indexFinding (location : Location) (primary : Expr) (name : String) :
    Except Failure Finding := do
  match primary.type >>= v.program.typeDeclaration? >>= fun owner => v.program.accessor? owner name
  with
  | none => return ⟨{}, v.marks, true⟩
  | some d =>
    let x ← v.program.decl d location
    let flags := v.declarationFlags d x
    let flags := { flags with typeErased := flags.typeErased || v.erasedThrough primary x }
    let arguments := ((primary.type >>= v.program.form?).map TypeForm.arguments).getD []
    return ⟨resultFlags flags (v.hasGenericResult x arguments (primary.isRaw v.marks)), v.marks, false⟩

/-! ## Operators and branches -/

/-- The type has no primitive slot; an expression without a type counts as such. -/
def erasesToTop (type : Option TypeId) : Bool :=
  match type with
  | some t => v.policy.erasesToObject v.program t
  | none => true

/-- `a then b else c` takes its first value from `b`. -/
def alternative (left : Expr) : Bool :=
  match left.form with
  | .binary .andThen _ value => value.flags.unboxed
  | _ => left.flags.unboxed

def binaryFlags (type : Option TypeId) (operator : BinaryOperator) (left right : Expr) : Flags where
  unboxed :=
    if operator.isArithmetic || operator.isArithmeticAssign then
      left.flags.unboxed && right.flags.unboxed
    else if operator = .orElse then
      alternative left && right.flags.unboxed && !v.erasesToTop type
    else operator.yieldsTruth

/-- Unboxed if every branch is and the common type has a primitive slot; any other flag is set if
some branch has it. -/
def branchFlags (type : Option TypeId) (branches : List Expr) : Flags where
  unboxed := branches.all (·.flags.unboxed) && !v.erasesToTop type
  typeErased := branches.any (·.flags.typeErased)
  raw := branches.any (·.flags.raw)
  untrusted := branches.any (·.flags.untrusted)

def caseResults : List ValueCase → List Expr
  | [] => []
  | .mk _ result :: cs => result :: caseResults cs

/-! ## The rules -/

/-- Flags that settle nothing else. -/
def plain (flags : Flags) : Finding := ⟨flags, v.marks, false⟩

/-- The finding for an expression whose parts have their flags. -/
def rule (n : Node) : Form → Except Failure Finding
  | .literal _ | .template _ | .present _ | .nonempty _ | .isOf _ _ | .within _ _ _ =>
    return v.plain { unboxed := true }
  | .base (some d) _ => return v.plain (← v.baseFlags n.location d)
  | .member primary (some d) operator _ => v.memberFinding n.location primary d operator
  | .paren inner => return v.plain (v.parenFlags inner)
  | .call primary arguments => return v.plain (← v.callFlags n.location primary arguments)
  | .callNamed primary _ => return v.plain (← v.callFlags n.location primary [])
  | .unary operator operand =>
    return v.plain { unboxed := !operator.keepsOperand || operand.flags.unboxed }
  | .binary operator left right => return v.plain (v.binaryFlags n.type operator left right)
  | .assign target _ => return v.plain { unboxed := target.flags.unboxed }
  | .choose _ yes no => return v.plain (v.branchFlags n.type [yes, no])
  | .switch _ cases otherwise =>
    return v.plain (v.branchFlags n.type (caseResults cases ++ otherwise.toList))
  | .letIn _ result => return v.plain result.flags
  | .typeLiteral (.type _) =>
    let marks := match n.type with
      | some t => v.marks.setRaw t true
      | none => v.marks
    return ⟨{ raw := true }, marks, false⟩
  | .element primary _ => v.indexFinding n.location primary "get"
  | .span primary _ _ => v.indexFinding n.location primary "span"
  | .base none _ | .member _ none _ _ | .constructor _ | .typeLiteral (.declaration _)
  | .function _ _ _ | .tuple _ | .sequence _ | .comprehension _ | .spread _ | .this | .super
  | .outer => return v.plain {}

end View

end Unbox
