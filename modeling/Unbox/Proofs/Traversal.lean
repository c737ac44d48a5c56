import Unbox.Proofs.Closed
import Unbox.Proofs.Sites
import Unbox.Proofs.Visiting

/-!
# How a tree is visited

All visits are put together in a few ways only. What holds of every visit is proved by induction on
how it is put together, with no regard to the many forms of trees.

* `Layout` : the sites and the bare tree, for one kind of tree;
* `Chore t q u` : the steps besides the rules, with the part `q` of the tree that calls for each;
* `Visits t L ps visit a` : `visit` visits the tree `a`, whose parts are `ps`;
* `Target.visit_visits` : so does the visit of an expression, and likewise for every kind of tree;
* `Visits.bare`, `Visits.leads` : a visit returns the tree with other flags at most, and touches
  nothing but what the parts of the tree force;
* `Target.visitUnits_follows` : the same for all units together.
-/

namespace Unbox
open Visitor

/-- The sites of a tree and the tree without flags, for one kind of tree. -/
structure Layout (α : Type) where
  sites : α → List Site
  bare : α → α

namespace Layout
variable {α β : Type}

def prod (L : Layout α) (M : Layout β) : Layout (α × β) :=
  ⟨fun p => L.sites p.1 ++ M.sites p.2, fun p => (L.bare p.1, M.bare p.2)⟩

/-- The tree stands in the body of `d`. -/
def within (d : DeclId) (L : Layout α) : Layout α := ⟨fun a => (L.sites a).map (.within d), L.bare⟩

def empty : Layout Unit := ⟨fun _ => [], id⟩
def expr : Layout Expr := ⟨Site.ofExpr, Bare.expr⟩
def all : Layout (List Expr) := ⟨Site.ofAll, Bare.all⟩
def option : Layout (Option Expr) := ⟨Site.ofOption, Bare.option⟩
def named : Layout (List NamedArgument) := ⟨Site.ofNamed, Bare.named⟩
def conditions : Layout (List Condition) := ⟨Site.ofConditions, Bare.conditions⟩
def bindings : Layout (List Binding) := ⟨Site.ofBindings, Bare.bindings⟩
def cases : Layout (List ValueCase) := ⟨Site.ofCases, Bare.cases⟩
def clause : Layout Clause := ⟨Site.ofClause, Bare.clause⟩
def parameters : Layout (List Parameter) := ⟨Site.ofParameters, Bare.parameters⟩
def lists : Layout (List (List Parameter)) := ⟨Site.ofLists, Bare.lists⟩
def body : Layout Body := ⟨Site.ofBody, Bare.body⟩
def stmt : Layout Stmt := ⟨Site.ofStmt, Bare.stmt⟩
def block : Layout (List Stmt) := ⟨Site.ofBlock, Bare.block⟩
def blockCases : Layout (List BlockCase) := ⟨Site.ofBlockCases, Bare.blockCases⟩
def source : Layout SourceUnit := ⟨SourceUnit.sites, SourceUnit.bare⟩
def sources : Layout (List SourceUnit) := ⟨List.flatMap SourceUnit.sites, List.map SourceUnit.bare⟩

theorem sites_expr (e : Expr) : expr.sites e = Site.ofForm e.form ++ [{ expr := e }] := by
  cases e
  rfl

end Layout

/-- A step that is not made by a rule, with the part of the tree that calls for it. -/
inductive Chore (t : Target) : Part → Visitor Unit → Prop where
  | forces {q : Part} {ds : List DeclId} (l : Location) (hd : ∀ d ∈ ds, d ∈ q.forced) :
    Chore t q (ds.forM (t.forceAt l))
  | receiver (q : Part) (e : Expr) : Chore t q (boxReceiver e)
  /-- Only flags may differ from what stands in the tree. -/
  | narrow {e e' : Expr} (h : Bare.expr e' = Bare.expr e) : Chore t (.expr e) (t.narrow e')
  | check (head : DeclareHead) (lists : List (List Parameter)) (body : Body) :
    Chore t (.stmt (.declare head lists body)) (t.checkAt head.location head.declaration)

/-- `visit` visits the tree `a`, whose parts are `ps`. A tree that differs from `a` in flags only is
visited in the same steps. -/
inductive Visits (t : Target) : {α : Type} → Layout α → List Part → (α → Visitor α) → α → Prop where
  | done {α : Type} {L : Layout α} {visit : α → Visitor α} {a : α} (hs : L.sites a = [])
    (hv : visit a = pure a) : Visits t L [] visit a
  | pair {α β : Type} {L : Layout α} {M : Layout β} {ps qs : List Part} {a : α} {b : β}
    {visit : α → Visitor α} {visit' : β → Visitor β} (hx : Visits t L ps visit a)
    (hy : Visits t M qs visit' b) :
    Visits t (L.prod M) (ps ++ qs) (fun p => do
      let a ← visit p.1
      let b ← visit' p.2
      return (a, b)) (a, b)
  | build {α β : Type} {L : Layout α} {M : Layout β} {ps : List Part} {a : α}
    {visit : α → Visitor α} {visit' : β → Visitor β} (h : Visits t L ps visit a) (mk : α → β)
    (hv : ∀ p, L.bare p = L.bare a → visit' (mk p) = do return mk (← visit p))
    (hs : ∀ p, M.sites (mk p) = L.sites p) (hb : ∀ p, M.bare (mk p) = mk (L.bare p)) :
    Visits t M ps visit' (mk a)
  | finish {α : Type} {L : Layout α} {ps : List Part} {a : α} {visit : α → Visitor α}
    {visit' : Expr → Visitor Expr} (n : Node) (h : Visits t L ps visit a) (mk : α → Form)
    (hv : ∀ n p, L.bare p = L.bare a → visit' (.mk n (mk p)) = do t.finish n (mk (← visit p)))
    (hs : ∀ p, Site.ofForm (mk p) = L.sites p) (hb : ∀ p, Bare.form (mk p) = mk (L.bare p)) :
    Visits t .expr (.expr (.mk n (mk a)) :: ps) visit' (.mk n (mk a))
  | inside {α : Type} {L : Layout α} {ps : List Part} {a : α} {visit : α → Visitor α} (d : DeclId)
    (h : Visits t L ps visit a) : Visits t (L.within d) ps (fun p => inside d (visit p)) a
  /-- A part that is no expression. -/
  | note {α : Type} {L : Layout α} {ps : List Part} {a : α} {visit : α → Visitor α} (q : Part)
    (hq : q.expr? = none) (h : Visits t L ps visit a) : Visits t L (q :: ps) visit a
  | chore {α : Type} {L : Layout α} {ps : List Part} {a : α} {visit : α → Visitor α}
    (h : Visits t L ps visit a) (u : α → Visitor Unit)
    (hu : ∀ p, L.bare p = L.bare a → ∃ q ∈ ps, Chore t q (u p)) :
    Visits t L ps (fun p => do
      let p ← visit p
      u p
      return p) a
  /-- The variables of an iteration are boxed first and bound then. -/
  | iteration {α β : Type} {L : Layout α} {M : Layout β} {ps qs : List Part} {a : α} {b : β}
    {visit : α → Visitor α} {visit' : β → Visitor β} (ds : List DeclId) (l : α → Location)
    (hd : ∃ q ∈ ps, ∀ d ∈ ds, d ∈ q.forced) (hx : Visits t L ps visit a)
    (hy : Visits t M qs visit' b) :
    Visits t (L.prod M) (ps ++ qs) (fun p => do
      let a ← visit p.1
      ds.forM (t.forceAt (l a))
      let b ← binding ds (visit' p.2)
      return (a, b)) (a, b)

/-! ## Every visit is put together so -/

namespace Visits
variable {t : Target}

theorem leaf {visit : Expr → Visitor Expr} (n : Node) (form : Form)
    (hv : ∀ n, visit (.mk n form) = t.finish n form) (hs : Site.ofForm form = [])
    (hb : Bare.form form = form) : Visits t .expr [.expr (.mk n form)] visit (.mk n form) :=
  have hpure : Visits t .empty [] pure () := .done rfl rfl
  .finish n hpure (fun _ => form) (fun n _ _ => hv n) (fun _ => hs) fun _ => hb

/-- A step before all others, called for by `q`. -/
theorem first {q : Part} {u : Visitor Unit} (hq : q.expr? = none) (hu : Chore t q u) :
    Visits t .empty [q] (fun _ => do
      let p ← pure ()
      u
      return p) () :=
  have hpure : Visits t .empty [] (fun _ => pure ()) () := .done rfl rfl
  .chore (.note q hq hpure) (fun _ => u) fun _ _ => ⟨q, List.mem_singleton_self q, hu⟩

end Visits

/-- Flags are not looked at to find the receiver. -/
theorem boxReceiver_congr {e e' : Expr} (h : Bare.expr e' = Bare.expr e) :
    boxReceiver e' = boxReceiver e := by
  have bare (e : Expr) : boxReceiver (Bare.expr e) = boxReceiver e := by
    unfold boxReceiver
    rw [Bare.unwrap_expr]
    obtain ⟨n, form⟩ := e.unwrap
    cases form with
    | member primary d op ts =>
      obtain ⟨m, form⟩ := primary
      cases form with
      | base d ts => cases d <;> rfl
      | _ => rfl
    | _ => rfl
  rw [← bare e', h, bare]

theorem variables_congr {cs cs' : List Condition} (h : Bare.conditions cs' = Bare.conditions cs) :
    cs'.filterMap Condition.variable? = cs.filterMap Condition.variable? := by
  rw [← Bare.variables_conditions cs', h, Bare.variables_conditions]

namespace Target
variable (t : Target)

mutual

theorem visit_visits : (e : Expr) → Visits t .expr (Part.ofExpr e) t.visit e
  | .mk n (.literal _) => .leaf n _ (fun _ => rfl) rfl rfl
  | .mk n (.base _ _) => .leaf n _ (fun _ => rfl) rfl rfl
  | .mk n (.constructor _) => .leaf n _ (fun _ => rfl) rfl rfl
  | .mk n (.typeLiteral _) => .leaf n _ (fun _ => rfl) rfl rfl
  | .mk n .this => .leaf n _ (fun _ => rfl) rfl rfl
  | .mk n .super => .leaf n _ (fun _ => rfl) rfl rfl
  | .mk n .outer => .leaf n _ (fun _ => rfl) rfl rfl
  | .mk n (.template es) =>
    .finish n (visitAll_visits es) .template (fun _ _ _ => rfl) (fun _ => rfl) fun _ => rfl
  | .mk n (.tuple es) =>
    .finish n (visitAll_visits es) .tuple (fun _ _ _ => rfl) (fun _ => rfl) fun _ => rfl
  | .mk n (.sequence es) =>
    .finish n (visitAll_visits es) .sequence (fun _ _ _ => rfl) (fun _ => rfl) fun _ => rfl
  | .mk n (.member e d op ts) =>
    .finish n (visit_visits e) (.member · d op ts) (fun _ _ _ => rfl) (fun _ => rfl) fun _ => rfl
  | .mk n (.paren e) =>
    .finish n (visit_visits e) .paren (fun _ _ _ => rfl) (fun _ => rfl) fun _ => rfl
  | .mk n (.unary op e) =>
    .finish n (visit_visits e) (.unary op) (fun _ _ _ => rfl) (fun _ => rfl) fun _ => rfl
  | .mk n (.present e) =>
    .finish n (visit_visits e) .present (fun _ _ _ => rfl) (fun _ => rfl) fun _ => rfl
  | .mk n (.nonempty e) =>
    .finish n (visit_visits e) .nonempty (fun _ _ _ => rfl) (fun _ => rfl) fun _ => rfl
  | .mk n (.isOf e type) =>
    .finish n (visit_visits e) (.isOf · type) (fun _ _ _ => rfl) (fun _ => rfl) fun _ => rfl
  | .mk n (.spread e) =>
    .finish n (visit_visits e) .spread (fun _ _ _ => rfl) (fun _ => rfl) fun _ => rfl
  | .mk n (.call f es) =>
    .finish n (.pair (visit_visits f) (visitAll_visits es)) (fun p => .call p.1 p.2)
      (fun _ _ _ => rfl) (fun _ => rfl) fun _ => rfl
  | .mk n (.callNamed f as) =>
    .finish n (.pair (visit_visits f) (visitNamed_visits as)) (fun p => .callNamed p.1 p.2)
      (fun _ _ _ => rfl) (fun _ => rfl) fun _ => rfl
  | .mk n (.binary op a b) =>
    .finish n (.pair (visit_visits a) (visit_visits b)) (fun p => .binary op p.1 p.2)
      (fun _ _ _ => rfl) (fun _ => rfl) fun _ => rfl
  | .mk n (.element a b) =>
    .finish n (.pair (visit_visits a) (visit_visits b)) (fun p => .element p.1 p.2)
      (fun _ _ _ => rfl) (fun _ => rfl) fun _ => rfl
  | .mk n (.assign a b) =>
    .finish n (.chore (.pair (visit_visits a) (visit_visits b)) (fun p => t.narrow p.1)
      fun _ hp => ⟨.expr a, List.mem_append_left _ (Part.mem_ofExpr a),
        .narrow (congrArg Prod.fst hp)⟩)
      (fun p => .assign p.1 p.2) (fun _ _ _ => rfl) (fun _ => rfl) fun _ => rfl
  | .mk n (.within a b d) =>
    .finish n (.pair (.pair (visit_visits a) (visit_visits b)) (visit_visits d))
      (fun p => .within p.1.1 p.1.2 p.2) (fun _ _ _ => rfl) (fun _ => rfl) fun _ => rfl
  | .mk n (.choose cs yes no) =>
    .finish n (.pair (.pair (visitConditions_visits cs) (visit_visits yes)) (visit_visits no))
      (fun p => .choose p.1.1 p.1.2 p.2) (fun _ _ _ => rfl) (fun _ => rfl) fun _ => rfl
  | .mk n (.switch e cs otherwise) =>
    .finish n (.pair (.pair (visit_visits e) (visitCases_visits cs)) (visitOption_visits otherwise))
      (fun p => .switch p.1.1 p.1.2 p.2) (fun _ _ _ => rfl) (fun _ => rfl) fun _ => rfl
  | .mk n (.letIn bs result) =>
    .finish n (.pair (visitBindings_visits bs) (visit_visits result)) (fun p => .letIn p.1 p.2)
      (fun _ _ _ => rfl) (fun _ => rfl) fun _ => rfl
  | .mk n (.function (some d) lists body) =>
    .finish n (.inside d (.pair (visitLists_visits lists) (visitBody_visits body)))
      (fun p => .function (some d) p.1 p.2) (fun _ _ _ => rfl) (fun _ => rfl) fun _ => rfl
  | .mk n (.function none lists body) =>
    .finish n (.pair (visitLists_visits lists) (visitBody_visits body))
      (fun p => .function none p.1 p.2) (fun _ _ _ => rfl) (fun _ => rfl) fun _ => rfl
  | .mk n (.span e first last) =>
    .finish n (.pair (.pair (visit_visits e) (visitOption_visits first)) (visitOption_visits last))
      (fun p => .span p.1.1 p.1.2 p.2) (fun _ _ _ => rfl) (fun _ => rfl) fun _ => rfl
  | .mk n (.comprehension k) =>
    .finish n (visitClause_visits k) .comprehension (fun _ _ _ => rfl) (fun _ => rfl) fun _ => rfl

theorem visitAll_visits : (es : List Expr) → Visits t .all (Part.ofAll es) t.visitAll es
  | [] => .done rfl rfl
  | e :: es =>
    .build (.pair (visit_visits e) (visitAll_visits es)) (fun p => p.1 :: p.2)
      (fun _ _ => rfl) (fun _ => rfl) fun _ => rfl

theorem visitOption_visits : (e : Option Expr) →
    Visits t .option (Part.ofOption e) t.visitOption e
  | none => .done rfl rfl
  | some e => .build (visit_visits e) some (fun _ _ => rfl) (fun _ => rfl) fun _ => rfl

theorem visitNamed_visits : (as : List NamedArgument) →
    Visits t .named (Part.ofNamed as) t.visitNamed as
  | [] => .done rfl rfl
  | .specified name e :: as =>
    .build (.pair (.note _ rfl (visit_visits e)) (visitNamed_visits as))
      (fun p => .specified name p.1 :: p.2) (fun _ _ => rfl) (fun _ => rfl) fun _ => rfl
  | .attribute d body :: as =>
    .build (.pair (.note _ rfl (.inside d (visitBody_visits body))) (visitNamed_visits as))
      (fun p => .attribute d p.1 :: p.2) (fun _ _ => rfl) (fun _ => rfl) fun _ => rfl
  | .method d lists body :: as =>
    .build
      (.pair (.note _ rfl (.inside d (.pair (visitLists_visits lists) (visitBody_visits body))))
        (visitNamed_visits as))
      (fun p => .method d p.1.1 p.1.2 :: p.2) (fun _ _ => rfl) (fun _ => rfl) fun _ => rfl
  | .sequenced es :: as =>
    .build (.pair (.note _ rfl (visitAll_visits es)) (visitNamed_visits as))
      (fun p => .sequenced p.1 :: p.2) (fun _ _ => rfl) (fun _ => rfl) fun _ => rfl

theorem visitConditions_visits : (cs : List Condition) →
    Visits t .conditions (Part.ofConditions cs) t.visitConditions cs
  | [] => .done rfl rfl
  | .mk test e :: cs =>
    .build (.pair (.note _ rfl (visit_visits e)) (visitConditions_visits cs))
      (fun p => .mk test p.1 :: p.2) (fun _ _ => rfl) (fun _ => rfl) fun _ => rfl

theorem visitBindings_visits : (bs : List Binding) →
    Visits t .bindings (Part.ofBindings bs) t.visitBindings bs
  | [] => .done rfl rfl
  | .mk d e :: bs =>
    .build (.pair (.note _ rfl (visit_visits e)) (visitBindings_visits bs))
      (fun p => .mk d p.1 :: p.2) (fun _ _ => rfl) (fun _ => rfl) fun _ => rfl

theorem visitCases_visits : (cs : List ValueCase) →
    Visits t .cases (Part.ofCases cs) t.visitCases cs
  | [] => .done rfl rfl
  | .mk es result :: cs =>
    .build (.pair (.pair (visitAll_visits es) (visit_visits result)) (visitCases_visits cs))
      (fun p => .mk p.1.1 p.1.2 :: p.2) (fun _ _ => rfl) (fun _ => rfl) fun _ => rfl

theorem visitClause_visits : (k : Clause) → Visits t .clause (Part.ofClause k) t.visitClause k
  | .forIn pattern e next =>
    .build (.iteration pattern.variables Expr.location ⟨_, List.mem_cons_self, fun _ => id⟩
      (.note (.clause (.forIn pattern e next)) rfl (visit_visits e)) (visitClause_visits next))
      (fun p => Clause.forIn pattern p.1 p.2) (fun _ _ => rfl) (fun _ => rfl) fun _ => rfl
  | .onlyIf cs next =>
    .build
      (.pair (.pair (.first (q := .clause (.onlyIf cs next)) rfl (.forces .unknown fun _ => id))
        (visitConditions_visits cs)) (visitClause_visits next))
      (fun p => Clause.onlyIf p.1.2 p.2)
      (fun p hp => congrArg (fun ds : List DeclId => (do
        ds.forM (t.forceAt .unknown)
        let cs ← t.visitConditions p.1.2
        let next ← t.visitClause p.2
        return Clause.onlyIf cs next))
        (variables_congr (congrArg (·.1.2) hp)))
      (fun _ => rfl) fun _ => rfl
  | .yield e =>
    .build (.pair (.first (q := .clause (.yield e)) rfl (.receiver _ e)) (visit_visits e))
      (fun p => Clause.yield p.2)
      (fun p hp => congrArg (fun u : Visitor Unit => (do u; return Clause.yield (← t.visit p.2)))
        (boxReceiver_congr (congrArg Prod.snd hp)))
      (fun _ => rfl) fun _ => rfl

theorem visitParameters_visits : (ps : List Parameter) →
    Visits t .parameters (Part.ofParameters ps) t.visitParameters ps
  | [] => .done rfl rfl
  | .value d initial :: ps =>
    .build (.pair (.note _ rfl (visitOption_visits initial)) (visitParameters_visits ps))
      (fun p => .value d p.1 :: p.2) (fun _ _ => rfl) (fun _ => rfl) fun _ => rfl
  | .functional d initial lists :: ps =>
    .build (.pair (.pair (.note _ rfl (visitOption_visits initial)) (visitLists_visits lists))
      (visitParameters_visits ps))
      (fun p => .functional d p.1.1 p.1.2 :: p.2) (fun _ _ => rfl) (fun _ => rfl) fun _ => rfl

theorem visitLists_visits : (lists : List (List Parameter)) →
    Visits t .lists (Part.ofLists lists) t.visitLists lists
  | [] => .done rfl rfl
  | ps :: lists =>
    .build (.pair (visitParameters_visits ps) (visitLists_visits lists)) (fun p => p.1 :: p.2)
      (fun _ _ => rfl) (fun _ => rfl) fun _ => rfl

theorem visitBody_visits : (body : Body) → Visits t .body (Part.ofBody body) t.visitBody body
  | .absent => .done rfl rfl
  | .value e => .build (visit_visits e) Body.value (fun _ _ => rfl) (fun _ => rfl) fun _ => rfl
  | .block ss =>
    .build (visitBlock_visits ss) Body.block (fun _ _ => rfl) (fun _ => rfl) fun _ => rfl

theorem visitStmt_visits : (s : Stmt) → Visits t .stmt (Part.ofStmt s) t.visitStmt s
  | .declare head lists body =>
    .build (.pair (.first rfl (.check head lists body))
      (.inside head.declaration (.pair (visitLists_visits lists) (visitBody_visits body))))
      (fun p => Stmt.declare head p.2.1 p.2.2) (fun _ _ => rfl) (fun _ => rfl) fun _ => rfl
  | .specify a b isLazy =>
    .build
      (.chore (.pair (.note (.stmt (.specify a b isLazy)) rfl (visit_visits a)) (visit_visits b))
        (fun p => t.narrow p.1) fun _ hp => ⟨.expr a,
          List.mem_append_left _ (List.mem_cons_of_mem _ (Part.mem_ofExpr a)),
          .narrow (congrArg Prod.fst hp)⟩)
      (fun p => Stmt.specify p.1 p.2 isLazy) (fun _ _ => rfl) (fun _ => rfl) fun _ => rfl
  | .evaluate e =>
    .build (.note _ rfl (visit_visits e)) Stmt.evaluate (fun _ _ => rfl) (fun _ => rfl) fun _ => rfl
  | .returns e =>
    .build (.note _ rfl (visitOption_visits e)) Stmt.returns (fun _ _ => rfl) (fun _ => rfl)
      fun _ => rfl
  | .throws e =>
    .build (.note _ rfl (visitOption_visits e)) Stmt.throws (fun _ _ => rfl) (fun _ => rfl)
      fun _ => rfl
  | .ifElse cs yes no =>
    .build (.pair (.pair (.note _ rfl (visitConditions_visits cs)) (visitBlock_visits yes))
      (visitBlock_visits no))
      (fun p => Stmt.ifElse p.1.1 p.1.2 p.2) (fun _ _ => rfl) (fun _ => rfl) fun _ => rfl
  | .whileDo cs body =>
    .build (.pair (.note _ rfl (visitConditions_visits cs)) (visitBlock_visits body))
      (fun p => Stmt.whileDo p.1 p.2) (fun _ _ => rfl) (fun _ => rfl) fun _ => rfl
  | .forIn pattern e body otherwise =>
    .build
      (.pair (.pair (.chore
        (.note (.stmt (.forIn pattern e body otherwise)) rfl (visit_visits e))
        (fun e => pattern.variables.forM (t.forceAt e.location))
        fun e' _ => ⟨_, List.mem_cons_self, .forces e'.location fun _ => id⟩)
        (visitBlock_visits body)) (visitBlock_visits otherwise))
      (fun p => Stmt.forIn pattern p.1.1 p.1.2 p.2) (fun _ _ => rfl) (fun _ => rfl) fun _ => rfl
  | .switch e cs otherwise =>
    .build (.pair (.pair (.note _ rfl (visit_visits e)) (visitBlockCases_visits cs))
      (visitBlock_visits otherwise))
      (fun p => Stmt.switch p.1.1 p.1.2 p.2) (fun _ _ => rfl) (fun _ => rfl) fun _ => rfl
  | .block ss =>
    .build (.note _ rfl (visitBlock_visits ss)) Stmt.block (fun _ _ => rfl) (fun _ => rfl)
      fun _ => rfl
  | .breaks => .note _ rfl (.done rfl rfl)
  | .continues => .note _ rfl (.done rfl rfl)

theorem visitBlock_visits : (ss : List Stmt) → Visits t .block (Part.ofBlock ss) t.visitBlock ss
  | [] => .done rfl rfl
  | s :: ss =>
    .build (.pair (visitStmt_visits s) (visitBlock_visits ss)) (fun p => p.1 :: p.2)
      (fun _ _ => rfl) (fun _ => rfl) fun _ => rfl

theorem visitBlockCases_visits : (cs : List BlockCase) →
    Visits t .blockCases (Part.ofBlockCases cs) t.visitBlockCases cs
  | [] => .done rfl rfl
  | .mk es body :: cs =>
    .build (.pair (.pair (visitAll_visits es) (visitBlock_visits body)) (visitBlockCases_visits cs))
      (fun p => .mk p.1.1 p.1.2 :: p.2) (fun _ _ => rfl) (fun _ => rfl) fun _ => rfl

end

theorem visitUnit_visits (u : SourceUnit) : Visits t .source u.parts t.visitUnit u :=
  .build (t.visitBlock_visits u.statements) (fun ss => { u with statements := ss })
    (fun _ _ => rfl) (fun _ => rfl) fun _ => rfl

theorem mapM_visits (units : List SourceUnit) :
    Visits t .sources (units.flatMap SourceUnit.parts) (List.mapM t.visitUnit) units := by
  induction units with
  | nil => exact .done rfl rfl
  | cons u units ih =>
    exact .build (.pair (t.visitUnit_visits u) ih) (fun p => p.1 :: p.2)
      (fun _ _ => List.mapM_cons) (fun _ => rfl) fun _ => rfl

end Target

/-! ## What is returned, and what is touched -/

/-- What the parts force satisfies `F`. -/
def Forces (F : DeclId → Prop) (ps : List Part) : Prop := ∀ q ∈ ps, ∀ d ∈ q.forced, F d

namespace Forces
variable {F : DeclId → Prop} {q : Part} {ps qs : List Part}

theorem tail (h : Forces F (q :: ps)) : Forces F ps := fun r hr => h r (List.mem_cons_of_mem q hr)

theorem left (h : Forces F (ps ++ qs)) : Forces F ps := fun r hr => h r (List.mem_append_left qs hr)

theorem right (h : Forces F (ps ++ qs)) : Forces F qs :=
  fun r hr => h r (List.mem_append_right ps hr)

theorem units {units : List SourceUnit} (h : ∀ u ∈ units, ∀ d ∈ u.forced, F d) :
    Forces F (units.flatMap SourceUnit.parts) := by
  intro q hq d hd
  obtain ⟨u, hu, hq⟩ := List.mem_flatMap.mp hq
  exact h u hu d (List.mem_flatMap.mpr ⟨q, hq, hd⟩)

end Forces

theorem Chore.quiets {t : Target} {F : DeclId → Prop} {q : Part} {u : Visitor Unit}
    (h : Chore t q u) (hF : ∀ d ∈ q.forced, F d) : Quiets t F u := by
  cases h with
  | forces l hd => exact .forces l fun d hds => hF d (hd d hds)
  | receiver => exact .boxReceiver _
  | narrow => exact .narrow _
  | check => exact .checkAt _ _

namespace Visits
variable {t : Target} {F : DeclId → Prop} {α : Type} {L : Layout α} {ps : List Part} {a : α}
  {visit : α → Visitor α}

theorem bare (h : Visits t L ps visit a) (s : Visit) : L.bare (visit a s).1 = L.bare a := by
  induction h generalizing s with
  | done _ hv => rw [hv]; rfl
  | pair _ _ ihx ihy => exact Prod.ext (ihx s) (ihy _)
  | @build _ _ _ _ _ a _ _ _ mk hv _ hb ih =>
    rw [hv a rfl]
    exact (hb _).trans ((congrArg mk (ih s)).trans (hb a).symm)
  | @finish _ _ _ a visit _ n _ mk hv _ hb ih =>
    rw [hv n a rfl]
    refine (t.finish_bare n _ _).trans ?_
    have hform : Bare.form (mk (visit a s).1) = Bare.form (mk a) := by rw [hb, hb, ih s]
    exact congrArg (Expr.mk { n with flags := {} }) hform
  | inside d _ ih => exact ih _
  | note _ _ _ ih => exact ih s
  | chore _ _ _ ih => exact ih s
  | iteration _ _ _ _ _ ihx ihy => exact Prod.ext (ihx s) (ihy _)

/-- What the variables of an iteration bind is in the table once they are boxed. -/
theorem sound_binding {ds : List DeclId} {l : Location} {s : Visit} (hs : s.Sound t F)
    (hF : ∀ d ∈ ds, F d) :
    let s' := (ds.forM (t.forceAt l) s).2
    Visit.Sound t F { s' with bound := ds ++ s'.bound } := by
  intro s' hf d hd
  rcases List.mem_append.mp hd with hd | hd
  · exact ⟨(Target.hasDecl_of_forces hf).2 d hd, hF d hd⟩
  · exact hs.leads ((Quiets.forces l hF).leads hs) hf d hd

theorem leads (h : Visits t L ps visit a) (hF : Forces F ps) {s : Visit} (hs : s.Sound t F) :
    Visit.Leads t F s (visit a s).2 := by
  induction h generalizing s with
  | done _ hv =>
    rw [hv]
    exact .refl s
  | pair _ _ ihx ihy =>
    have hx := ihx hF.left hs
    exact hx.trans (ihy hF.right (hs.leads hx))
  | build _ _ hv _ _ ih =>
    rw [hv _ rfl]
    exact ih hF hs
  | finish n _ mk hv _ _ ih =>
    rw [hv n _ rfl]
    exact (ih hF.tail hs).trans (t.finish_leads n _ _)
  | inside d _ ih =>
    obtain ⟨ht, hsc, hb, hf⟩ := ih hF (s := { s with scopes := d :: s.scopes }) hs
    exact ⟨ht, congrArg List.tail hsc, hb, hf⟩
  | note _ _ _ ih => exact ih hF.tail hs
  | chore h u hu ih =>
    obtain ⟨q, hq, hu⟩ := hu _ (h.bare s)
    have hact := ih hF hs
    exact hact.trans ((hu.quiets (hF q hq)).leads (hs.leads hact))
  | @iteration _ _ _ _ _ _ a _ visit _ ds l hd _ _ ihx ihy =>
    obtain ⟨q, hq, hd⟩ := hd
    have hds : ∀ d ∈ ds, F d := fun d hdd => hF.left q hq d (hd d hdd)
    have hx := ihx hF.left hs
    have hf := (Quiets.forces (l (visit a s).1) hds).leads (hs.leads hx)
    obtain ⟨ht, hsc, hb, hfail⟩ := ihy hF.right (sound_binding (hs.leads hx) hds)
    refine (hx.trans hf).trans ⟨ht, hsc, ?_, hfail⟩
    exact (congrArg (List.drop ds.length) hb).trans List.drop_left

end Visits

namespace Target
variable (t : Target) {F : DeclId → Prop}

/-- What the visit of all units writes, and that it returns them with other flags at most. -/
theorem visitUnits_follows (isRecording : Bool) (m : Marks) (units : List SourceUnit)
    (h : ∀ u ∈ units, ∀ d ∈ u.forced, F d) :
    Relation.ReflTransGen (Touch t F) m (t.visitUnits isRecording m units).2.marks ∧
      (t.visitUnits isRecording m units).1.map SourceUnit.bare = units.map SourceUnit.bare :=
  ⟨((t.mapM_visits units).leads (.units h) (.start m _)).touches, (t.mapM_visits units).bare _⟩

end Target

end Unbox
