import Unbox.Tree

/-!
# Bare trees: what the analysis does not write

`SourceUnit.bare` is the unit with no flag set on any expression, and likewise for every kind of
tree. Everything else stays: the forms, the ids, the types, the declarations that are referred to
and the places. Two units with the same bare unit differ in flags only.
-/

namespace Unbox

namespace Bare

mutual

def expr : Expr → Expr
  | .mk n f => .mk { n with flags := {} } (form f)

def form : Form → Form
  | .literal l => .literal l
  | .template es => .template (all es)
  | .base d ts => .base d ts
  | .member e d op ts => .member (expr e) d op ts
  | .constructor d => .constructor d
  | .paren e => .paren (expr e)
  | .call f es => .call (expr f) (all es)
  | .callNamed f as => .callNamed (expr f) (named as)
  | .unary op e => .unary op (expr e)
  | .binary op a b => .binary op (expr a) (expr b)
  | .assign target value => .assign (expr target) (expr value)
  | .present e => .present (expr e)
  | .nonempty e => .nonempty (expr e)
  | .isOf e type => .isOf (expr e) type
  | .within a b d => .within (expr a) (expr b) (expr d)
  | .choose cs yes no => .choose (conditions cs) (expr yes) (expr no)
  | .switch e cs otherwise => .switch (expr e) (cases cs) (option otherwise)
  | .letIn bs result => .letIn (bindings bs) (expr result)
  | .typeLiteral target => .typeLiteral target
  | .function d ps b => .function d (lists ps) (body b)
  | .element e i => .element (expr e) (expr i)
  | .span e first last => .span (expr e) (option first) (option last)
  | .tuple es => .tuple (all es)
  | .sequence es => .sequence (all es)
  | .comprehension k => .comprehension (clause k)
  | .spread e => .spread (expr e)
  | .this => .this
  | .super => .super
  | .outer => .outer

def all : List Expr → List Expr
  | [] => []
  | e :: es => expr e :: all es

def option : Option Expr → Option Expr
  | none => none
  | some e => some (expr e)

def named : List NamedArgument → List NamedArgument
  | [] => []
  | .specified name e :: as => .specified name (expr e) :: named as
  | .attribute d b :: as => .attribute d (body b) :: named as
  | .method d ps b :: as => .method d (lists ps) (body b) :: named as
  | .sequenced es :: as => .sequenced (all es) :: named as

def conditions : List Condition → List Condition
  | [] => []
  | .mk test e :: cs => .mk test (expr e) :: conditions cs

def bindings : List Binding → List Binding
  | [] => []
  | .mk d e :: bs => .mk d (expr e) :: bindings bs

def cases : List ValueCase → List ValueCase
  | [] => []
  | .mk es result :: cs => .mk (all es) (expr result) :: cases cs

def clause : Clause → Clause
  | .forIn pattern e next => .forIn pattern (expr e) (clause next)
  | .onlyIf cs next => .onlyIf (conditions cs) (clause next)
  | .yield e => .yield (expr e)

def parameters : List Parameter → List Parameter
  | [] => []
  | .value d initial :: ps => .value d (option initial) :: parameters ps
  | .functional d initial ls :: ps => .functional d (option initial) (lists ls) :: parameters ps

def lists : List (List Parameter) → List (List Parameter)
  | [] => []
  | ps :: ls => parameters ps :: lists ls

def body : Body → Body
  | .absent => .absent
  | .value e => .value (expr e)
  | .block ss => .block (block ss)

def stmt : Stmt → Stmt
  | .declare head ls b => .declare head (lists ls) (body b)
  | .specify target value isLazy => .specify (expr target) (expr value) isLazy
  | .evaluate e => .evaluate (expr e)
  | .returns e => .returns (option e)
  | .throws e => .throws (option e)
  | .ifElse cs yes no => .ifElse (conditions cs) (block yes) (block no)
  | .whileDo cs b => .whileDo (conditions cs) (block b)
  | .forIn pattern e b otherwise => .forIn pattern (expr e) (block b) (block otherwise)
  | .switch e cs otherwise => .switch (expr e) (blockCases cs) (block otherwise)
  | .block ss => .block (block ss)
  | .breaks => .breaks
  | .continues => .continues

def block : List Stmt → List Stmt
  | [] => []
  | s :: ss => stmt s :: block ss

def blockCases : List BlockCase → List BlockCase
  | [] => []
  | .mk es b :: cs => .mk (all es) (block b) :: blockCases cs

end

theorem unwrap_expr : (e : Expr) → (expr e).unwrap = expr e.unwrap
  | .mk _ form => by
    cases form with
    | paren e => exact unwrap_expr e
    | _ => rfl

theorem type_expr (e : Expr) : (expr e).type = e.type := by
  cases e
  rfl

theorem location_expr (e : Expr) : (expr e).location = e.location := by
  cases e
  rfl

theorem referenced_expr (e : Expr) : (expr e).referenced = e.referenced := by
  obtain ⟨n, form⟩ := e
  cases form <;> rfl

theorem variables_conditions (cs : List Condition) :
    (conditions cs).filterMap Condition.variable? = cs.filterMap Condition.variable? := by
  induction cs with
  | nil => rfl
  | cons c cs ih =>
    obtain ⟨test, e⟩ := c
    rw [conditions, List.filterMap_cons, List.filterMap_cons, ih]
    rfl

end Bare

/-- The unit with no flag set. -/
def SourceUnit.bare (u : SourceUnit) : SourceUnit :=
  { u with statements := Bare.block u.statements }

end Unbox
