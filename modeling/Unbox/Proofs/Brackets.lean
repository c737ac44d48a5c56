import Unbox.Policy.Standard
import Unbox.Proofs.Locality
import Unbox.Proofs.Peel

/-!
# What the rules see of added parentheses

Parentheses that are added have a type of their own, a duplicate of the type inside, and get the flags
of what is inside. So a rule finds the same with and without them, apart from the two places where it
looks at an operand without looking through parentheses.

* `Bracketing` : which parentheses of a tree were added, and what was marked before its visit;
* `Bracketing.Encloses` : what parentheses may enclose, and which type they have;
* `Bracketing.HasOwnType`, `Bracketing.Exposes` : what may not be enclosed besides;
* `Bracketing.Clear` : an expression that got its flags looks the same from outside once peeled;
* `View.rule_peel` : a rule finds the same for a form of clear expressions once it is peeled.
-/

namespace Unbox

/-- The expressions whose flags the rule of a form looks at. -/
def Form.operands : Form → List Expr
  | .member e _ _ _ | .paren e | .call e _ | .callNamed e _ | .unary _ e | .assign e _ | .letIn _ e
  | .element e _ | .span e _ _ => [e]
  | .binary _ a b | .choose _ a b => [a, b]
  | .switch _ cs otherwise => View.caseResults cs ++ otherwise.toList
  | _ => []

/-- Whether a type is basic depends on its form alone. -/
def Policy.BasicByForm (policy : Policy) (p : Program) : Prop :=
  ∀ a c, p.form? a = p.form? c → policy.isBasic p a = policy.isBasic p c

theorem Policy.standard_basicByForm (p : Program) : Policy.standard.BasicByForm p := by
  intro a c h
  simp only [Policy.standard, Program.isBasic, h]

/-- Parentheses that were put into a tree before it is visited. -/
structure Bracketing extends Target where
  /-- A duplicate of a basic type is basic. -/
  basic : policy.BasicByForm program
  /-- The ids of the parentheses. -/
  added : ExprId → Bool
  /-- The marks before the visit. -/
  start : Marks
  /-- The types that may become raw during the visit, those of type literals. -/
  literal : TypeId → Prop

namespace Bracketing
variable (b : Bracketing)

/-- Added parentheses, with what they enclose. -/
def bracket? : Expr → Option (Node × Expr)
  | .mk n (.paren inner) => if b.added n.id then some (n, inner) else none
  | _ => none

/-- Parentheses with the node `n` around `inner`: this denotes no method, and the type of `n` is a fresh
duplicate of its type. -/
structure Encloses (n : Node) (inner : Expr) : Prop where
  reference : (inner.unwrap.referenced >>= b.program.decl?).any Declaration.isMethod = false
  type : n.type.map b.program.form? = inner.type.map b.program.form?
  raw : n.type.any b.start.raw = inner.type.any b.start.raw
  fresh : ∀ c ∈ n.type, ¬ b.literal c

/-- The type of an expression is not that of a type literal elsewhere in the tree. -/
def HasOwnType (e : Expr) : Prop :=
  ∀ a ∈ e.type, b.literal a → ∃ target, e.form = .typeLiteral (.type target)

/-- Peeling brings out neither `a then b` as the left operand of `else`, nor a number with a sign as
the only argument for a numeric class. -/
structure Exposes (form : Form) : Prop where
  alternative : ∀ left right, form = .binary .orElse left right →
    (Peel.expr b.added left).isThen = true → left.isThen = true
  argument : ∀ primary es, form = .call primary es →
    ∀ d ∈ primary.unwrap.referenced, b.program.core.isNumericClass d = true →
      View.isNumberArgument (Peel.all b.added es) = true → View.isNumberArgument es = true

/-- Only types of type literals became raw. -/
def Near (m : Marks) : Prop := ∀ a, ¬ b.literal a → m.raw a = b.start.raw a

/-- An expression that got its flags looks the same from outside once peeled. -/
structure Clear (e : Expr) : Prop where
  flags : (Peel.expr b.added e).flags = e.flags
  type : (Peel.expr b.added e).type.map b.program.form? = e.type.map b.program.form?
  inTable : ∀ a ∈ e.type, b.program.hasType a = true
  raw : ∀ m, b.Near m → (Peel.expr b.added e).isRaw m = e.isRaw m
  /-- A type literal is raw itself. -/
  literal : ∀ target, e.form = .typeLiteral (.type target) → e.flags.raw = true
  /-- An `else` around takes its first value from here. -/
  value : ∀ a c, e.form = .binary .andThen a c → (Peel.expr b.added c).flags = c.flags

variable {b}

theorem Exposes.congr {form form' : Form} (h : b.Exposes form)
    (hbare : Bare.form form' = Bare.form form) : b.Exposes form' := by
  constructor
  · rintro left right rfl hthen
    cases form with
    | binary op left₀ right₀ =>
      obtain ⟨rfl, hleft, -⟩ := Form.binary.inj hbare
      rw [← Peel.isThen_bare, hleft, Peel.isThen_bare] at hthen
      rw [← Bare.isThen_expr, hleft, Bare.isThen_expr]
      exact h.alternative left₀ right₀ rfl hthen
    | _ => cases hbare
  · rintro primary es rfl d hd hclass hnumber
    cases form with
    | call primary₀ es₀ =>
      obtain ⟨hprimary, hes⟩ := Form.call.inj hbare
      have href : primary₀.unwrap.referenced = primary.unwrap.referenced := by
        rw [← Bare.referenced_expr, ← Bare.unwrap_expr, ← hprimary, Bare.unwrap_expr,
          Bare.referenced_expr]
      rw [← Peel.isNumberArgument_bare, hes, Peel.isNumberArgument_bare] at hnumber
      rw [← Bare.isNumberArgument_all, hes, Bare.isNumberArgument_all]
      exact h.argument primary₀ es₀ rfl d (href ▸ hd) hclass hnumber
    | _ => cases hbare

theorem Encloses.congr {n : Node} {e e' : Expr} (h : b.Encloses n e)
    (hbare : Bare.expr e' = Bare.expr e) : b.Encloses n e' := by
  have htype : e'.type = e.type := by rw [← Bare.type_expr, hbare, Bare.type_expr]
  have href : e'.unwrap.referenced = e.unwrap.referenced := by
    rw [← Bare.referenced_expr, ← Bare.unwrap_expr, hbare, Bare.unwrap_expr, Bare.referenced_expr]
  exact ⟨href ▸ h.reference, htype ▸ h.type, htype ▸ h.raw, h.fresh⟩

theorem HasOwnType.congr {e e' : Expr} (h : b.HasOwnType e) (hbare : Bare.expr e' = Bare.expr e) :
    b.HasOwnType e' := by
  intro a ha hl
  have htype : e'.type = e.type := by rw [← Bare.type_expr, hbare, Bare.type_expr]
  obtain ⟨target, hform⟩ := h a (htype ▸ ha) hl
  obtain ⟨n, f⟩ := e
  obtain ⟨n', f'⟩ := e'
  obtain rfl : f = .typeLiteral (.type target) := hform
  exact ⟨target, Bare.eq_typeLiteral (Expr.mk.inj hbare).2⟩

namespace Clear
variable {e : Expr}

theorem isBasic (h : b.Clear e) {v : View} (hv : v.toTarget = b.toTarget) :
    v.isBasic (Peel.expr b.added e).type = v.isBasic e.type := by
  have htype := h.type
  unfold View.isBasic
  rw [hv]
  cases ha : e.type with
  | none =>
    rw [ha, Option.map_none, Option.map_eq_none_iff] at htype
    rw [htype]
  | some a =>
    rw [ha, Option.map_some, Option.map_eq_some_iff] at htype
    obtain ⟨c, hc, hform⟩ := htype
    rw [hc]
    exact b.basic c a hform

theorem type_bind {β : Type} (h : b.Clear e) (f : Option TypeForm → Option β) :
    ((Peel.expr b.added e).type >>= fun a => f (b.program.form? a)) =
      e.type >>= fun a => f (b.program.form? a) := by
  have hmap (o : Option TypeId) : (o >>= fun a => f (b.program.form? a)) =
      (o.map b.program.form?).bind f := by cases o <;> rfl
  rw [hmap, hmap, h.type]

end Clear

end Bracketing

/-! ## The rules -/

namespace View
variable {b : Bracketing} {m : Marks} {scopes : List DeclId} {e : Expr}

theorem erasedThrough_peel (h : b.Clear e) (hm : b.Near m) (x : Declaration) :
    erasedThrough ⟨b.toTarget, m, scopes⟩ (Peel.expr b.added e) x =
      erasedThrough ⟨b.toTarget, m, scopes⟩ e x := by
  unfold erasedThrough
  rw [h.raw m hm, Peel.unwrap_expr]
  obtain ⟨n, f⟩ := e.unwrap
  cases f <;> rfl

theorem memberFinding_peel (h : b.Clear e) (hm : b.Near m) (l : Location) (d : DeclId)
    (op : MemberOperator) :
    memberFinding ⟨b.toTarget, m, scopes⟩ l (Peel.expr b.added e) d op =
      memberFinding ⟨b.toTarget, m, scopes⟩ l e d op := by
  have hbasic : isBasic ⟨b.toTarget, m, scopes⟩ (Peel.expr b.added e).type =
      isBasic ⟨b.toTarget, m, scopes⟩ e.type := h.isBasic rfl
  unfold memberFinding
  simp only [erasedThrough_peel h hm, hbasic, h.flags]

theorem callFlags_peel (h : b.Clear e) (hm : b.Near m) {es : List Expr} (l : Location)
    (hes : ∀ d ∈ e.unwrap.referenced, b.program.core.isNumericClass d = true →
      isNumberArgument (Peel.all b.added es) = true → isNumberArgument es = true) :
    callFlags ⟨b.toTarget, m, scopes⟩ l (Peel.expr b.added e) (Peel.all b.added es) =
      callFlags ⟨b.toTarget, m, scopes⟩ l e es := by
  unfold callFlags
  simp only [Peel.referenced_unwrap, Peel.typeArguments_unwrap, h.raw m hm, h.flags]
  cases hd : e.unwrap.referenced with
  | none => rfl
  | some d =>
    have hnumber : (b.program.core.isNumericClass d && isNumberArgument (Peel.all b.added es)) =
        (b.program.core.isNumericClass d && isNumberArgument es) := by
      cases hclass : b.program.core.isNumericClass d with
      | false => rfl
      | true =>
        rw [Bool.eq_iff_iff]
        exact ⟨hes d hd hclass, Peel.isNumberArgument_all⟩
    simp only [Bool.and_assoc, hnumber]

theorem indexFinding_peel (h : b.Clear e) (hm : b.Near m) (l : Location) (name : String) :
    indexFinding ⟨b.toTarget, m, scopes⟩ l (Peel.expr b.added e) name =
      indexFinding ⟨b.toTarget, m, scopes⟩ l e name := by
  have hdecl : (Peel.expr b.added e).type >>= b.program.typeDeclaration? =
      e.type >>= b.program.typeDeclaration? := h.type_bind (· >>= TypeForm.declaration?)
  have hform : (Peel.expr b.added e).type >>= b.program.form? = e.type >>= b.program.form? :=
    h.type_bind id
  unfold indexFinding
  simp only [hdecl, hform, erasedThrough_peel h hm, h.raw m hm]

/-- Without parentheses around `a then b` it does not matter what else was added. -/
theorem alternative_peel (h : b.Clear e)
    (hthen : (Peel.expr b.added e).isThen = true → e.isThen = true) :
    alternative (Peel.expr b.added e) = alternative e := by
  have plain {e : Expr} (h : e.isThen = false) : alternative e = e.flags.unboxed := by
    obtain ⟨n, f⟩ := e
    cases f with
    | binary op a c =>
      cases op with
      | andThen => cases h
      | _ => rfl
    | _ => rfl
  cases he : e.isThen with
  | false =>
    have hpeel : (Peel.expr b.added e).isThen = false := by
      rw [← Bool.not_eq_true]
      exact fun hp => by simp [hthen hp] at he
    rw [plain he, plain hpeel, h.flags]
  | true =>
    obtain ⟨n, f⟩ := e
    cases f with
    | binary op a c =>
      cases op with
      | andThen => exact congrArg Flags.unboxed (h.value a c rfl)
      | _ => cases he
    | _ => cases he

theorem branchFlags_congr (v : View) (type : Option TypeId) {es es' : List Expr}
    (h : es'.map Expr.flags = es.map Expr.flags) : v.branchFlags type es' = v.branchFlags type es := by
  have hall (f : Flags → Bool) : es'.all (fun e => f e.flags) = es.all fun e => f e.flags := by
    have hlist := congrArg (List.all · f) h
    simp only [List.all_map] at hlist
    exact hlist
  have hany (f : Flags → Bool) : es'.any (fun e => f e.flags) = es.any fun e => f e.flags := by
    have hlist := congrArg (List.any · f) h
    simp only [List.any_map] at hlist
    exact hlist
  simp only [branchFlags, hall Flags.unboxed, hany Flags.typeErased, hany Flags.raw,
    hany Flags.untrusted]

theorem parenFlags_peel (v : View) (h : b.Clear e) :
    v.parenFlags (Peel.expr b.added e) = v.parenFlags e := by
  simp only [parenFlags, denotesMethod, Peel.referenced_unwrap, h.flags]

theorem binaryFlags_peel (v : View) {e' : Expr} (type : Option TypeId) (op : BinaryOperator)
    (h : b.Clear e) (h' : b.Clear e')
    (hthen : op = .orElse → (Peel.expr b.added e).isThen = true → e.isThen = true) :
    v.binaryFlags type op (Peel.expr b.added e) (Peel.expr b.added e') =
      v.binaryFlags type op e e' := by
  by_cases hop : op = .orElse
  · simp only [binaryFlags, h.flags, h'.flags, alternative_peel h (hthen hop)]
  · simp only [binaryFlags, h.flags, h'.flags, if_neg hop]

/-- A rule finds the same for a form of clear expressions once it is peeled, unless that brings out
what the rule looks for. -/
theorem rule_peel (hm : b.Near m) (n : Node) {form : Form}
    (hclear : ∀ e ∈ form.operands, b.Clear e) (hexposes : b.Exposes form) :
    rule ⟨b.toTarget, m, scopes⟩ n (Peel.form b.added form) =
      rule ⟨b.toTarget, m, scopes⟩ n form := by
  have hplain {f g : Flags} (h : f = g) :
      (pure (plain ⟨b.toTarget, m, scopes⟩ f) : Except Failure Finding) =
        pure (plain ⟨b.toTarget, m, scopes⟩ g) := by rw [h]
  have hcall {x y : Except Failure Flags} (h : x = y) :
      (do return plain ⟨b.toTarget, m, scopes⟩ (← x)) =
        (do return plain ⟨b.toTarget, m, scopes⟩ (← y)) := by rw [h]
  have hbranches {es : List Expr} (h : ∀ e ∈ es, b.Clear e) :
      branchFlags ⟨b.toTarget, m, scopes⟩ n.type (es.map (Peel.expr b.added)) =
        branchFlags ⟨b.toTarget, m, scopes⟩ n.type es := by
    apply branchFlags_congr
    rw [List.map_map]
    exact List.map_congr_left fun e he => (h e he).flags
  cases form with
  | member e d op ts =>
    cases d with
    | none => rfl
    | some d => exact memberFinding_peel (hclear e List.mem_cons_self) hm n.location d op
  | paren e => exact hplain (parenFlags_peel _ (hclear e List.mem_cons_self))
  | call e es =>
    exact hcall (callFlags_peel (hclear e List.mem_cons_self) hm n.location
      (hexposes.argument e es rfl))
  | callNamed e as =>
    have he : callFlags ⟨b.toTarget, m, scopes⟩ n.location (Peel.expr b.added e)
        (Peel.all b.added []) = callFlags ⟨b.toTarget, m, scopes⟩ n.location e [] :=
      callFlags_peel (hclear e List.mem_cons_self) hm n.location nofun
    exact hcall he
  | unary op e =>
    have he := congrArg Flags.unboxed (hclear e List.mem_cons_self).flags
    exact hplain (congrArg (fun u => ({ unboxed := !op.keepsOperand || u } : Flags)) he)
  | binary op left right =>
    refine hplain (binaryFlags_peel _ n.type op (hclear left List.mem_cons_self)
      (hclear right (List.mem_cons_of_mem _ List.mem_cons_self)) ?_)
    rintro rfl
    exact hexposes.alternative left right rfl
  | assign e value =>
    have he := congrArg Flags.unboxed (hclear e List.mem_cons_self).flags
    exact hplain (congrArg (fun u => ({ unboxed := u } : Flags)) he)
  | letIn bs e => exact hplain (hclear e List.mem_cons_self).flags
  | choose cs yes no => exact hplain (hbranches hclear)
  | switch e cs otherwise =>
    have hcases : caseResults (Peel.cases b.added cs) ++ (Peel.option b.added otherwise).toList =
        (caseResults cs ++ otherwise.toList).map (Peel.expr b.added) := by
      rw [List.map_append, Peel.caseResults_cases]
      cases otherwise <;> rfl
    exact hplain ((congrArg _ hcases).trans (hbranches hclear))
  | element e i | span e first last =>
    exact indexFinding_peel (hclear e List.mem_cons_self) hm n.location _
  | typeLiteral target => cases target <;> rfl
  | base d ts => cases d <;> rfl
  | _ => rfl

end View

end Unbox
