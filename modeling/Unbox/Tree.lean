import Unbox.Id
import Unbox.Location
import Unbox.Names
import Unbox.Operator

/-!
# Trees: typed expressions and statements

* `Node` : what every expression carries: its id, its type if one could be computed, its place, and
  the flags that the analysis writes;
* `Expr`, `Form` : an expression is a node with a form;
* `Stmt`, `SourceUnit` : statements and the units they make up.

A reference to a declaration is absent where the checker has already reported an error.
-/

namespace Unbox

/-- What is known about the representation of an expression; nothing set means boxed. -/
structure Flags where
  unboxed : Bool := false
  typeErased : Bool := false
  raw : Bool := false
  untrusted : Bool := false
deriving DecidableEq, Inhabited

structure Node where
  id : ExprId
  type : Option TypeId
  location : Location
  flags : Flags := {}

inductive Literal where
  | natural (value : Nat)
  | float (value : Float)
  | string (value : String)
  | character (value : Char)

/-- A literal that stands for a number. -/
def Literal.isNumber : Literal → Bool
  | natural _ | float _ => true
  | string _ | character _ => false

inductive TypeLiteral where
  | type (target : TypeId)
  | declaration (target : DeclId)

/-- The variables that one step of an iteration binds. -/
inductive Pattern where
  | name (declaration : DeclId)
  | tuple (elements : List Pattern)
  | entry (key item : Pattern)

mutual
/-- The variables of a pattern from left to right. -/
def Pattern.variables : Pattern → List DeclId
  | name d => [d]
  | tuple ps => Pattern.variablesOf ps
  | entry k v => k.variables ++ v.variables

def Pattern.variablesOf : List Pattern → List DeclId
  | [] => []
  | p :: ps => p.variables ++ Pattern.variablesOf ps
end

/-- What a condition asks of its subject, and the variable that it binds if it holds. -/
inductive Test where
  | holds
  | isOf (variable_ : Option DeclId) (tested : Option TypeId)
  | present (variable_ : Option DeclId)
  | nonempty (variable_ : Option DeclId)

def Test.variable? : Test → Option DeclId
  | holds => none
  | isOf v _ | present v | nonempty v => v

/-- What a declaration statement says besides its parameters and its body. -/
structure DeclareHead where
  declaration : DeclId
  typeParameters : List DeclId := []
  /-- Declared without an explicit type. -/
  inferred : Bool := false
  location : Location

mutual

inductive Expr where
  | mk (node : Node) (form : Form)

inductive Form where
  | literal (value : Literal)
  /-- A text with expressions in it. -/
  | template (parts : List Expr)
  | base (declaration : Option DeclId) (typeArguments : List TypeId)
  | member (primary : Expr) (member : Option DeclId) (operator : MemberOperator)
    (typeArguments : List TypeId)
  /-- A class used as a constructor. -/
  | constructor (declaration : Option DeclId)
  | paren (inner : Expr)
  | call (primary : Expr) (arguments : List Expr)
  | callNamed (primary : Expr) (arguments : List NamedArgument)
  | unary (operator : UnaryOperator) (operand : Expr)
  | binary (operator : BinaryOperator) (left right : Expr)
  | assign (target value : Expr)
  | present (subject : Expr)
  | nonempty (subject : Expr)
  | isOf (subject : Expr) (tested : Option TypeId)
  /-- `lower < operand < upper` -/
  | within (lower operand upper : Expr)
  | choose (conditions : List Condition) (yes no : Expr)
  | switch (subject : Expr) (cases : List ValueCase) (otherwise : Option Expr)
  | letIn (bindings : List Binding) (result : Expr)
  | typeLiteral (target : TypeLiteral)
  | function (declaration : Option DeclId) (parameters : List (List Parameter)) (body : Body)
  /-- `xs[i]` -/
  | element (primary index : Expr)
  /-- `xs[a..b]`, either end left out at will -/
  | span (primary : Expr) (first last : Option Expr)
  | tuple (elements : List Expr)
  | sequence (elements : List Expr)
  | comprehension (clause : Clause)
  | spread (inner : Expr)
  | this
  | super
  | outer

inductive NamedArgument where
  | specified (name : Symbol) (value : Expr)
  | attribute (declaration : DeclId) (body : Body)
  | method (declaration : DeclId) (parameters : List (List Parameter)) (body : Body)
  /-- The sequence of values that may end an argument list. -/
  | sequenced (values : List Expr)

inductive Condition where
  | mk (test : Test) (subject : Expr)

inductive Binding where
  | mk (declaration : DeclId) (value : Expr)

inductive ValueCase where
  | mk (patterns : List Expr) (result : Expr)

inductive Clause where
  | forIn (pattern : Pattern) (iterated : Expr) (next : Clause)
  | onlyIf (conditions : List Condition) (next : Clause)
  | yield (result : Expr)

inductive Parameter where
  | value (declaration : DeclId) (initial : Option Expr)
  | functional (declaration : DeclId) (initial : Option Expr) (lists : List (List Parameter))

inductive Body where
  | absent
  | value (result : Expr)
  | block (statements : List Stmt)

/-- Statements. A branch that is left out is an empty block. -/
inductive Stmt where
  | declare (head : DeclareHead) (parameters : List (List Parameter)) (body : Body)
  /-- A value for a member that was declared without one; a lazy one is computed at each use. -/
  | specify (target value : Expr) (isLazy : Bool)
  | evaluate (expression : Expr)
  | returns (value : Option Expr)
  | throws (value : Option Expr)
  | ifElse (conditions : List Condition) (yes no : List Stmt)
  | whileDo (conditions : List Condition) (body : List Stmt)
  | forIn (pattern : Pattern) (iterated : Expr) (body otherwise : List Stmt)
  | switch (subject : Expr) (cases : List BlockCase) (otherwise : List Stmt)
  | block (statements : List Stmt)
  | breaks
  | continues

inductive BlockCase where
  | mk (patterns : List Expr) (body : List Stmt)

end

structure SourceUnit where
  name : String
  statements : List Stmt := []

namespace Expr

def node : Expr → Node
  | mk n _ => n

def form : Expr → Form
  | mk _ f => f

def id (e : Expr) : ExprId := e.node.id
def type (e : Expr) : Option TypeId := e.node.type
def location (e : Expr) : Location := e.node.location
def flags (e : Expr) : Flags := e.node.flags

def withFlags (e : Expr) (f : Flags) : Expr := mk { e.node with flags := f } e.form

/-- The expression inside all parentheses around it. -/
def unwrap : Expr → Expr
  | mk _ (.paren e) => e.unwrap
  | e => e

/-- The declaration that a reference refers to. -/
def referenced : Expr → Option DeclId
  | mk _ (.base d _) | mk _ (.member _ d _ _) | mk _ (.constructor d) => d
  | _ => none

def isLiteral : Expr → Bool
  | mk _ (.literal _) => true
  | _ => false

def isNumberLiteral : Expr → Bool
  | mk _ (.literal l) => l.isNumber
  | _ => false

/-- The type arguments written after a reference. -/
def typeArguments : Expr → List TypeId
  | mk _ (.base _ ts) | mk _ (.member _ _ _ ts) => ts
  | _ => []

end Expr

def Condition.variable? : Condition → Option DeclId
  | mk t _ => t.variable?

def Parameter.declaration : Parameter → DeclId
  | value d _ | functional d _ _ => d

end Unbox
