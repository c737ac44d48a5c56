import Unbox.Proofs.Bare
import Unbox.Rules

/-!
# Trees without some of their parentheses

`Peel.expr added` is the expression without the parentheses whose ids are `added`, and likewise for
every kind of tree. Everything else stays, flags included. So a tree with parentheses put around some
of its expressions is peeled to the tree as it was.

* `Peel.unwrap_expr` : inside all parentheses stands the same expression, itself peeled;
* `Peel.isThen_bare`, `Peel.isNumberArgument_bare` : what comes out when a tree is peeled does not
  depend on flags.
-/

namespace Unbox

namespace Expr

/-- The expression is `a then b`. -/
def isThen : Expr → Bool
  | mk _ (.binary .andThen _ _) => true
  | _ => false

end Expr

namespace Peel
variable (added : ExprId → Bool)

/-- The expression of a node and a form, unless that would be parentheses to leave out. -/
def close (n : Node) : Form → Expr
  | .paren e => if added n.id then e else .mk n (.paren e)
  | form => .mk n form

mutual

def expr : Expr → Expr
  | .mk n f => close added n (form f)

def form : Form → Form
  | .literal l => .literal l
  | .template es => .template (all es)
  | .base d ts => .base d ts
  | .member e d op ts => .member (expr e) d op ts
  | .constructor d => .constructor d
  | .paren e => .paren (expr e)
  | .call f es => .call (expr f) (all es)
  | .callNamed f as => .callNamed (expr f) (named as)
  | .unary op e => .unary op (expr e)
  | .binary op a b => .binary op (expr a) (expr b)
  | .assign target value => .assign (expr target) (expr value)
  | .present e => .present (expr e)
  | .nonempty e => .nonempty (expr e)
  | .isOf e type => .isOf (expr e) type
  | .within a b d => .within (expr a) (expr b) (expr d)
  | .choose cs yes no => .choose (conditions cs) (expr yes) (expr no)
  | .switch e cs otherwise => .switch (expr e) (cases cs) (option otherwise)
  | .letIn bs result => .letIn (bindings bs) (expr result)
  | .typeLiteral target => .typeLiteral target
  | .function d ps b => .function d (lists ps) (body b)
  | .element e i => .element (expr e) (expr i)
  | .span e first last => .span (expr e) (option first) (option last)
  | .tuple es => .tuple (all es)
  | .sequence es => .sequence (all es)
  | .comprehension k => .comprehension (clause k)
  | .spread e => .spread (expr e)
  | .this => .this
  | .super => .super
  | .outer => .outer

def all : List Expr → List Expr
  | [] => []
  | e :: es => expr e :: all es

def option : Option Expr → Option Expr
  | none => none
  | some e => some (expr e)

def named : List NamedArgument → List NamedArgument
  | [] => []
  | .specified name e :: as => .specified name (expr e) :: named as
  | .attribute d b :: as => .attribute d (body b) :: named as
  | .method d ps b :: as => .method d (lists ps) (body b) :: named as
  | .sequenced es :: as => .sequenced (all es) :: named as

def conditions : List Condition → List Condition
  | [] => []
  | .mk test e :: cs => .mk test (expr e) :: conditions cs

def bindings : List Binding → List Binding
  | [] => []
  | .mk d e :: bs => .mk d (expr e) :: bindings bs

def cases : List ValueCase → List ValueCase
  | [] => []
  | .mk es result :: cs => .mk (all es) (expr result) :: cases cs

def clause : Clause → Clause
  | .forIn pattern e next => .forIn pattern (expr e) (clause next)
  | .onlyIf cs next => .onlyIf (conditions cs) (clause next)
  | .yield e => .yield (expr e)

def parameters : List Parameter → List Parameter
  | [] => []
  | .value d initial :: ps => .value d (option initial) :: parameters ps
  | .functional d initial ls :: ps => .functional d (option initial) (lists ls) :: parameters ps

def lists : List (List Parameter) → List (List Parameter)
  | [] => []
  | ps :: ls => parameters ps :: lists ls

def body : Body → Body
  | .absent => .absent
  | .value e => .value (expr e)
  | .block ss => .block (block ss)

def stmt : Stmt → Stmt
  | .declare head ls b => .declare head (lists ls) (body b)
  | .specify target value isLazy => .specify (expr target) (expr value) isLazy
  | .evaluate e => .evaluate (expr e)
  | .returns e => .returns (option e)
  | .throws e => .throws (option e)
  | .ifElse cs yes no => .ifElse (conditions cs) (block yes) (block no)
  | .whileDo cs b => .whileDo (conditions cs) (block b)
  | .forIn pattern e b otherwise => .forIn pattern (expr e) (block b) (block otherwise)
  | .switch e cs otherwise => .switch (expr e) (blockCases cs) (block otherwise)
  | .block ss => .block (block ss)
  | .breaks => .breaks
  | .continues => .continues

def block : List Stmt → List Stmt
  | [] => []
  | s :: ss => stmt s :: block ss

def blockCases : List BlockCase → List BlockCase
  | [] => []
  | .mk es b :: cs => .mk (all es) (block b) :: blockCases cs

end

variable {added}

theorem expr_of_added {n : Node} (h : added n.id = true) (e : Expr) :
    expr added (.mk n (.paren e)) = expr added e := if_pos h

theorem expr_of_not_added {n : Node} (h : added n.id = false) (e : Expr) :
    expr added (.mk n (.paren e)) = .mk n (.paren (expr added e)) := if_neg (by simp [h])

/-! ## Inside all parentheses -/

theorem unwrap_expr : (e : Expr) →
    (expr added e).unwrap = .mk e.unwrap.node (form added e.unwrap.form)
  | .mk n f => by
    cases f with
    | paren e =>
      cases h : added n.id with
      | true =>
        rw [expr_of_added h]
        exact unwrap_expr e
      | false =>
        rw [expr_of_not_added h]
        exact unwrap_expr e
    | _ => rfl

theorem referenced_unwrap (e : Expr) : (expr added e).unwrap.referenced = e.unwrap.referenced := by
  rw [unwrap_expr]
  obtain ⟨n, f⟩ := e.unwrap
  cases f <;> rfl

theorem typeArguments_unwrap (e : Expr) :
    (expr added e).unwrap.typeArguments = e.unwrap.typeArguments := by
  rw [unwrap_expr]
  obtain ⟨n, f⟩ := e.unwrap
  cases f <;> rfl

/-! ## What comes out -/

theorem caseResults_cases (cs : List ValueCase) :
    View.caseResults (cases added cs) = (View.caseResults cs).map (expr added) := by
  induction cs with
  | nil => rfl
  | cons c cs ih =>
    obtain ⟨es, result⟩ := c
    rw [cases, View.caseResults, ih]
    rfl

theorem variables_conditions (cs : List Condition) :
    (conditions added cs).filterMap Condition.variable? = cs.filterMap Condition.variable? := by
  induction cs with
  | nil => rfl
  | cons c cs ih =>
    obtain ⟨test, e⟩ := c
    rw [conditions, List.filterMap_cons, List.filterMap_cons, ih]
    rfl

/-- A test that looks at the outermost form only, and finds nothing in parentheses, does not depend on
flags after peeling, by recursion on the parentheses that are left out. -/
theorem test_bare {test : Expr → Bool} (hparen : ∀ n e, test (.mk n (.paren e)) = false)
    (htest : ∀ n f, test (.mk { n with flags := {} } (form added (Bare.form f))) =
      test (.mk n (form added f))) :
    (e : Expr) → test (expr added (Bare.expr e)) = test (expr added e)
  | .mk n f => by
    cases f with
    | paren e =>
      have hbare : Bare.expr (.mk n (.paren e)) =
        .mk { n with flags := {} } (.paren (Bare.expr e)) := rfl
      rw [hbare]
      cases h : added n.id with
      | true =>
        rw [expr_of_added (n := { n with flags := {} }) h, expr_of_added h]
        exact test_bare hparen htest e
      | false =>
        rw [expr_of_not_added (n := { n with flags := {} }) h, expr_of_not_added h, hparen, hparen]
    | _ => exact htest n _

theorem isThen_bare (e : Expr) : (expr added (Bare.expr e)).isThen = (expr added e).isThen := by
  refine test_bare (fun _ _ => rfl) (fun n f => ?_) e
  cases f with
  | binary op a b => cases op <;> rfl
  | _ => rfl

theorem isNumberLiteral_bare (e : Expr) :
    (expr added (Bare.expr e)).isNumberLiteral = (expr added e).isNumberLiteral := by
  refine test_bare (fun _ _ => rfl) (fun n f => ?_) e
  cases f <;> rfl

theorem isNumberLiteral_expr {e : Expr} (h : e.isNumberLiteral = true) :
    (expr added e).isNumberLiteral = true := by
  obtain ⟨n, f⟩ := e
  cases f with
  | literal l => exact h
  | _ => cases h

theorem isNumberArgument_bare (es : List Expr) :
    View.isNumberArgument (all added (Bare.all es)) = View.isNumberArgument (all added es) := by
  cases es with
  | nil => rfl
  | cons e es =>
    cases es with
    | cons _ _ => rfl
    | nil =>
      dsimp only [Bare.all, all, View.isNumberArgument]
      rw [unwrap_expr, unwrap_expr, Bare.unwrap_expr]
      obtain ⟨n, f⟩ := e.unwrap
      cases f with
      | unary op operand => exact congrArg (op.isSign && ·) (isNumberLiteral_bare operand)
      | _ => rfl

theorem isNumberArgument_all {es : List Expr} (h : View.isNumberArgument es = true) :
    View.isNumberArgument (all added es) = true := by
  cases es with
  | nil => cases h
  | cons e es =>
    cases es with
    | cons _ _ => cases h
    | nil =>
      dsimp only [all, View.isNumberArgument] at h ⊢
      rw [unwrap_expr]
      generalize e.unwrap = u at h ⊢
      obtain ⟨n, f⟩ := u
      cases f with
      | literal l => exact h
      | unary op operand =>
        obtain ⟨hsign, hliteral⟩ := Bool.and_eq_true_iff.mp h
        exact Bool.and_eq_true_iff.mpr ⟨hsign, isNumberLiteral_expr hliteral⟩
      | _ => cases h

end Peel

namespace Bare

theorem eq_typeLiteral {f : Form} {target : TypeLiteral} (h : form f = .typeLiteral target) :
    f = .typeLiteral target := by
  cases f with
  | typeLiteral _ => exact h
  | _ => cases h

theorem isThen_expr (e : Expr) : (expr e).isThen = e.isThen := by
  obtain ⟨n, f⟩ := e
  cases f with
  | binary op a b => cases op <;> rfl
  | _ => rfl

theorem isNumberArgument_all (es : List Expr) :
    View.isNumberArgument (all es) = View.isNumberArgument es := by
  cases es with
  | nil => rfl
  | cons e es =>
    cases es with
    | cons _ _ => rfl
    | nil =>
      dsimp only [all, View.isNumberArgument]
      rw [unwrap_expr]
      obtain ⟨n, f⟩ := e.unwrap
      cases f with
      | unary op operand =>
        obtain ⟨m, g⟩ := operand
        cases g <;> rfl
      | _ => rfl

end Bare

end Unbox
