import Unbox.Tree

/-!
# The parts of a tree

* `Part` : what a tree is made of, at any depth: expressions, statements and what stands in them;
* `SourceUnit.parts` : all parts of a unit, each before what stands in it, and likewise for every
  kind of tree;
* `SourceUnit.forced` : the declarations that a unit boxes whatever their type;
* `SourceUnit.declared`, `SourceUnit.bound` : what its declaration statements and named arguments
  declare, and the variables of its conditions and bindings.
-/

namespace Unbox

inductive Part where
  | expr (e : Expr)
  | argument (a : NamedArgument)
  | condition (c : Condition)
  | binding (b : Binding)
  | clause (c : Clause)
  | parameter (p : Parameter)
  | stmt (s : Stmt)

namespace Part

mutual

def ofExpr : Expr → List Part
  | .mk n form => .expr (.mk n form) :: ofForm form

def ofForm : Form → List Part
  | .literal _ | .base _ _ | .constructor _ | .typeLiteral _ | .this | .super | .outer => []
  | .template es | .tuple es | .sequence es => ofAll es
  | .member e _ _ _ | .paren e | .unary _ e | .present e | .nonempty e | .isOf e _ | .spread e =>
    ofExpr e
  | .call f es => ofExpr f ++ ofAll es
  | .callNamed f as => ofExpr f ++ ofNamed as
  | .binary _ a b | .assign a b | .element a b => ofExpr a ++ ofExpr b
  | .within a b d => ofExpr a ++ ofExpr b ++ ofExpr d
  | .choose cs yes no => ofConditions cs ++ ofExpr yes ++ ofExpr no
  | .switch e cs otherwise => ofExpr e ++ ofCases cs ++ ofOption otherwise
  | .letIn bs result => ofBindings bs ++ ofExpr result
  | .function _ lists body => ofLists lists ++ ofBody body
  | .span e first last => ofExpr e ++ ofOption first ++ ofOption last
  | .comprehension k => ofClause k

def ofAll : List Expr → List Part
  | [] => []
  | e :: es => ofExpr e ++ ofAll es

def ofOption : Option Expr → List Part
  | none => []
  | some e => ofExpr e

def ofNamed : List NamedArgument → List Part
  | [] => []
  | .specified name e :: as => .argument (.specified name e) :: ofExpr e ++ ofNamed as
  | .attribute d body :: as => .argument (.attribute d body) :: ofBody body ++ ofNamed as
  | .method d lists body :: as =>
    .argument (.method d lists body) :: ofLists lists ++ ofBody body ++ ofNamed as
  | .sequenced es :: as => .argument (.sequenced es) :: ofAll es ++ ofNamed as

def ofConditions : List Condition → List Part
  | [] => []
  | .mk test e :: cs => .condition (.mk test e) :: ofExpr e ++ ofConditions cs

def ofBindings : List Binding → List Part
  | [] => []
  | .mk d e :: bs => .binding (.mk d e) :: ofExpr e ++ ofBindings bs

def ofCases : List ValueCase → List Part
  | [] => []
  | .mk es result :: cs => ofAll es ++ ofExpr result ++ ofCases cs

def ofClause : Clause → List Part
  | .forIn pattern e next => .clause (.forIn pattern e next) :: ofExpr e ++ ofClause next
  | .onlyIf cs next => .clause (.onlyIf cs next) :: ofConditions cs ++ ofClause next
  | .yield e => .clause (.yield e) :: ofExpr e

def ofParameters : List Parameter → List Part
  | [] => []
  | .value d initial :: ps => .parameter (.value d initial) :: ofOption initial ++ ofParameters ps
  | .functional d initial lists :: ps =>
    .parameter (.functional d initial lists) ::
      ofOption initial ++ ofLists lists ++ ofParameters ps

def ofLists : List (List Parameter) → List Part
  | [] => []
  | ps :: lists => ofParameters ps ++ ofLists lists

def ofBody : Body → List Part
  | .absent => []
  | .value e => ofExpr e
  | .block ss => ofBlock ss

def ofStmt : Stmt → List Part
  | .declare head lists body => .stmt (.declare head lists body) :: ofLists lists ++ ofBody body
  | .specify target value isLazy =>
    .stmt (.specify target value isLazy) :: ofExpr target ++ ofExpr value
  | .evaluate e => .stmt (.evaluate e) :: ofExpr e
  | .returns e => .stmt (.returns e) :: ofOption e
  | .throws e => .stmt (.throws e) :: ofOption e
  | .ifElse cs yes no =>
    .stmt (.ifElse cs yes no) :: ofConditions cs ++ ofBlock yes ++ ofBlock no
  | .whileDo cs body => .stmt (.whileDo cs body) :: ofConditions cs ++ ofBlock body
  | .forIn pattern e body otherwise =>
    .stmt (.forIn pattern e body otherwise) :: ofExpr e ++ ofBlock body ++ ofBlock otherwise
  | .switch e cs otherwise =>
    .stmt (.switch e cs otherwise) :: ofExpr e ++ ofBlockCases cs ++ ofBlock otherwise
  | .block ss => .stmt (.block ss) :: ofBlock ss
  | .breaks => [.stmt .breaks]
  | .continues => [.stmt .continues]

def ofBlock : List Stmt → List Part
  | [] => []
  | s :: ss => ofStmt s ++ ofBlock ss

def ofBlockCases : List BlockCase → List Part
  | [] => []
  | .mk es body :: cs => ofAll es ++ ofBlock body ++ ofBlockCases cs

end

theorem mem_ofExpr (e : Expr) : .expr e ∈ ofExpr e := by
  cases e
  exact List.mem_cons_self

theorem unwrap_mem : (e : Expr) → .expr e.unwrap ∈ ofExpr e
  | .mk _ form => by
    cases form with
    | paren e => exact List.mem_cons_of_mem _ (unwrap_mem e)
    | _ => exact List.mem_cons_self

/-- The declarations that a part boxes whatever their type: iteration variables, the variables of
the conditions of a comprehension, function literals and methods given as named arguments. -/
def forced : Part → List DeclId
  | .stmt (.forIn pattern _ _ _) | .clause (.forIn pattern _ _) => pattern.variables
  | .clause (.onlyIf conditions _) => conditions.filterMap Condition.variable?
  | .expr (.mk _ (.function literal _ _)) => literal.toList
  | .argument (.method d _ _) => [d]
  | _ => []

/-- The expression that a part is. -/
def expr? : Part → Option Expr
  | .expr e => some e
  | _ => none

/-- What a declaration statement declares, or an attribute given as a named argument. -/
def declared : Part → List DeclId
  | .stmt (.declare head _ _) => [head.declaration]
  | .argument (.attribute d _) => [d]
  | _ => []

/-- The variable of a condition or a binding. -/
def bound : Part → List DeclId
  | .condition c => c.variable?.toList
  | .binding (.mk d _) => [d]
  | _ => []

end Part

namespace SourceUnit
variable (u : SourceUnit)

def parts : List Part := Part.ofBlock u.statements

/-- The declarations that the unit boxes whatever their type. -/
def forced : List DeclId := u.parts.flatMap Part.forced

/-- What the unit declares by a statement or as a named argument, at any depth. -/
def declared : List DeclId := u.parts.flatMap Part.declared

/-- The variables of conditions and bindings. -/
def bound : List DeclId := u.parts.flatMap Part.bound

end SourceUnit

end Unbox
