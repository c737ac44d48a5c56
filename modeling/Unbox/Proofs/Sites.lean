import Unbox.Tree

/-!
# The expressions of a tree, parts before the whole

* `Site` : an expression together with the declarations of the tree around it;
* `SourceUnit.sites` : all expressions of a unit, each after the ones that stand in it, and likewise
  for every kind of tree;
* `SourceUnit.expressions` : the same without what is around them.
-/

namespace Unbox

structure Site where
  /-- The declarations around the expression, innermost first. -/
  scopes : List DeclId := []
  expr : Expr

namespace Site

/-- The site seen from outside of `d`. -/
def within (d : DeclId) (site : Site) : Site := { site with scopes := site.scopes ++ [d] }

/-- The sites seen from outside of a declaration, if there is one. -/
def enclose : Option DeclId → List Site → List Site
  | some d, sites => sites.map (within d)
  | none, sites => sites

mutual

def ofExpr : Expr → List Site
  | .mk n form => ofForm form ++ [{ expr := .mk n form }]

def ofForm : Form → List Site
  | .literal _ | .base _ _ | .constructor _ | .typeLiteral _ | .this | .super | .outer => []
  | .template es | .tuple es | .sequence es => ofAll es
  | .member e _ _ _ | .paren e | .unary _ e | .present e | .nonempty e | .isOf e _ | .spread e =>
    ofExpr e
  | .call f es => ofExpr f ++ ofAll es
  | .callNamed f as => ofExpr f ++ ofNamed as
  | .binary _ a b | .assign a b | .element a b => ofExpr a ++ ofExpr b
  | .within a b d => ofExpr a ++ ofExpr b ++ ofExpr d
  | .choose cs yes no => ofConditions cs ++ ofExpr yes ++ ofExpr no
  | .switch e cs otherwise => ofExpr e ++ ofCases cs ++ ofOption otherwise
  | .letIn bs result => ofBindings bs ++ ofExpr result
  | .function d lists body => enclose d (ofLists lists ++ ofBody body)
  | .span e first last => ofExpr e ++ ofOption first ++ ofOption last
  | .comprehension k => ofClause k

def ofAll : List Expr → List Site
  | [] => []
  | e :: es => ofExpr e ++ ofAll es

def ofOption : Option Expr → List Site
  | none => []
  | some e => ofExpr e

def ofNamed : List NamedArgument → List Site
  | [] => []
  | .specified _ e :: as => ofExpr e ++ ofNamed as
  | .attribute d body :: as => (ofBody body).map (within d) ++ ofNamed as
  | .method d lists body :: as => (ofLists lists ++ ofBody body).map (within d) ++ ofNamed as
  | .sequenced es :: as => ofAll es ++ ofNamed as

def ofConditions : List Condition → List Site
  | [] => []
  | .mk _ e :: cs => ofExpr e ++ ofConditions cs

def ofBindings : List Binding → List Site
  | [] => []
  | .mk _ e :: bs => ofExpr e ++ ofBindings bs

def ofCases : List ValueCase → List Site
  | [] => []
  | .mk es result :: cs => ofAll es ++ ofExpr result ++ ofCases cs

def ofClause : Clause → List Site
  | .forIn _ e next => ofExpr e ++ ofClause next
  | .onlyIf cs next => ofConditions cs ++ ofClause next
  | .yield e => ofExpr e

def ofParameters : List Parameter → List Site
  | [] => []
  | .value _ initial :: ps => ofOption initial ++ ofParameters ps
  | .functional _ initial lists :: ps => ofOption initial ++ ofLists lists ++ ofParameters ps

def ofLists : List (List Parameter) → List Site
  | [] => []
  | ps :: lists => ofParameters ps ++ ofLists lists

def ofBody : Body → List Site
  | .absent => []
  | .value e => ofExpr e
  | .block ss => ofBlock ss

def ofStmt : Stmt → List Site
  | .declare head lists body => (ofLists lists ++ ofBody body).map (within head.declaration)
  | .specify target value _ => ofExpr target ++ ofExpr value
  | .evaluate e => ofExpr e
  | .returns e | .throws e => ofOption e
  | .ifElse cs yes no => ofConditions cs ++ ofBlock yes ++ ofBlock no
  | .whileDo cs body => ofConditions cs ++ ofBlock body
  | .forIn _ e body otherwise => ofExpr e ++ ofBlock body ++ ofBlock otherwise
  | .switch e cs otherwise => ofExpr e ++ ofBlockCases cs ++ ofBlock otherwise
  | .block ss => ofBlock ss
  | .breaks | .continues => []

def ofBlock : List Stmt → List Site
  | [] => []
  | s :: ss => ofStmt s ++ ofBlock ss

def ofBlockCases : List BlockCase → List Site
  | [] => []
  | .mk es body :: cs => ofAll es ++ ofBlock body ++ ofBlockCases cs

end

end Site

namespace SourceUnit
variable (u : SourceUnit)

def sites : List Site := Site.ofBlock u.statements

/-- All expressions of the unit, each after the ones that stand in it. -/
def expressions : List Expr := u.sites.map Site.expr

end SourceUnit

end Unbox
