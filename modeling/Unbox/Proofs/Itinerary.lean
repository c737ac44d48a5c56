import Mathlib.Order.BooleanAlgebra.Basic
import Unbox.Proofs.Parts
import Unbox.Proofs.Writes

/-!
# Itineraries: the walk over a tree, act by act

What the walk over a tree does next never depends on the marks, so the walk is a list of acts, each
to be done while some function literals stand for methods.

* `Act`, `Step` : an act of the walk, and an act with the literals that stand for methods then;
* `Target.itinerary` : the steps of a unit, and likewise for every kind of tree;
* `Context.decideUnit_eq` : to decide a unit is to take its steps one after the other.
-/

namespace Unbox

/-- One act of the walk over a tree. -/
inductive Act where
  /-- An id met at a place has to be in the table. -/
  | check (location : Location) (d : DeclId)
  | count
  | strip (head : DeclareHead) (body : Body)
  /-- A condition of a comprehension binds the variable. -/
  | force (location : Location) (d : DeclId)
  /-- A function literal, or a method given as a named argument. -/
  | literal (location : Location) (d : DeclId)
  | iterated (location : Location) (d : DeclId)
  | variable_ (d : DeclId)
  | value (d : DeclId)
  | method (d : DeclId)
  | decide (d : DeclId)
  | typeParameter (location : Location) (d : DeclId)
  /-- A parameter has to have a scope that has parameters. -/
  | parameter (d : DeclId)

/-- An act, with the literals that stand for methods while it is done, innermost first. -/
structure Step where
  standing : List (DeclId × DeclId) := []
  act : Act

namespace Act

def run (c : Context) : Act → Decide Unit
  | check l d => do let _ ← c.lookupAt l d
  | count => Decide.countVisit
  | strip head body => c.stripUnderlying head body
  | force l d => do
    let _ ← c.lookupAt l d
    Decide.force d
  | literal l d => do
    let _ ← c.lookupAt l d
    Decide.countVisit
    Decide.force d
  | iterated l d => c.visitIterated l d
  | variable_ d => c.visitVariable d
  | value d => c.visitValue d
  | method d => c.visitMethod d
  | decide d => c.decideValue d
  | typeParameter l d => c.visitTypeParameter l d
  | parameter d => do
    let x ← c.lookup d
    let _ ← MonadExcept.ofExcept (c.program.parameterized d x)

/-- The declaration that an act boxes whatever its type. -/
def forced : Act → List DeclId
  | force _ d | literal _ d | iterated _ d => [d]
  | _ => []

end Act

namespace Step

/-- The step of an act in which no further literal stands for a method. -/
def plain (act : Act) : Step := { act }

/-- The step inside a specification by which `literal` stands for `method`. -/
def under (literal method : DeclId) (s : Step) : Step :=
  { s with standing := s.standing ++ [(literal, method)] }

def run (c : Context) (s : Step) : Decide Unit :=
  Decide.between (fun t => { t with rewrites := ⟨s.standing ++ t.rewrites.entries⟩ })
    (fun t => { t with rewrites := ⟨t.rewrites.entries.drop s.standing.length⟩ }) (s.act.run c)

end Step

namespace Context
variable (c : Context)

/-- Takes the steps one after the other. -/
def perform (steps : List Step) : Decide Unit := steps.forM (Step.run c)

end Context

/-! ## The steps of a tree -/

namespace Target
variable (t : Target)

/-- The acts before the parameters and the body of a declared entity. -/
def declareActs (head : DeclareHead) (body : Body) : List Act :=
  .check head.location head.declaration ::
    if (t.program.decl? head.declaration).any Declaration.isValue then [.strip head body] else []

/-- The acts for a declared entity once its parameters and its body are done. -/
def declaredActs (head : DeclareHead) : List Act :=
  head.typeParameters.map (.typeParameter head.location) ++ .count ::
    match (t.program.decl? head.declaration).map Declaration.kind with
    | some .value => [.value head.declaration]
    | some (.method _) => [.method head.declaration]
    | some (.setter parameter) => [.check head.location parameter, .decide parameter]
    | some (.typeParameter _) => [.typeParameter head.location head.declaration]
    | _ => []

/-- The acts for what a specification specifies. -/
def specifiedActs (d : DeclId) : List Act :=
  match (t.program.decl? d).map Declaration.kind with
  | some .value => [.value d]
  | some (.method _) => [.method d]
  | _ => []

mutual

def steps : Expr → List Step
  | .mk _ (.literal _) | .mk _ (.base _ _) | .mk _ (.constructor _) | .mk _ (.typeLiteral _)
  | .mk _ .this | .mk _ .super | .mk _ .outer => []
  | .mk _ (.template es) | .mk _ (.tuple es) | .mk _ (.sequence es) => stepsAll es
  | .mk _ (.member e _ _ _) | .mk _ (.paren e) | .mk _ (.unary _ e) | .mk _ (.present e)
  | .mk _ (.nonempty e) | .mk _ (.isOf e _) | .mk _ (.spread e) => steps e
  | .mk _ (.call f es) => steps f ++ stepsAll es
  | .mk _ (.callNamed f as) => steps f ++ stepsNamed as
  | .mk _ (.binary _ a b) | .mk _ (.assign a b) | .mk _ (.element a b) => steps a ++ steps b
  | .mk _ (.within a b d) => steps a ++ steps b ++ steps d
  | .mk _ (.choose cs yes no) => stepsConditions cs ++ steps yes ++ steps no
  | .mk _ (.switch e cs otherwise) => steps e ++ stepsCases cs ++ stepsOption otherwise
  | .mk _ (.letIn bs result) => stepsBindings bs ++ steps result
  | .mk n (.function literal lists body) =>
    stepsLists lists ++ stepsBody body ++
      literal.toList.map fun d => .plain (.literal n.location d)
  | .mk _ (.span e first last) => steps e ++ stepsOption first ++ stepsOption last
  | .mk _ (.comprehension clause) => stepsClause clause

def stepsAll : List Expr → List Step
  | [] => []
  | e :: es => steps e ++ stepsAll es

def stepsOption : Option Expr → List Step
  | none => []
  | some e => steps e

def stepsNamed : List NamedArgument → List Step
  | [] => []
  | .specified _ e :: as => steps e ++ stepsNamed as
  | .attribute d body :: as =>
    stepsBody body ++ [.plain (.check .unknown d), .plain .count, .plain (.decide d)] ++
      stepsNamed as
  | .method d lists body :: as =>
    stepsLists lists ++ stepsBody body ++ [.plain (.literal .unknown d)] ++ stepsNamed as
  | .sequenced es :: as => stepsAll es ++ stepsNamed as

def stepsConditions : List Condition → List Step
  | [] => []
  | .mk test e :: cs =>
    steps e ++ test.variable?.toList.map (fun d => .plain (.variable_ d)) ++ stepsConditions cs

def stepsBindings : List Binding → List Step
  | [] => []
  | .mk d e :: bs =>
    steps e ++ [.plain (.check e.location d), .plain (.variable_ d)] ++ stepsBindings bs

def stepsCases : List ValueCase → List Step
  | [] => []
  | .mk es result :: cs => stepsAll es ++ steps result ++ stepsCases cs

def stepsClause : Clause → List Step
  | .forIn pattern e next =>
    steps e ++ pattern.variables.map (fun d => .plain (.iterated e.location d)) ++ stepsClause next
  | .onlyIf cs next =>
    (cs.filterMap Condition.variable?).map (fun d => .plain (.force .unknown d)) ++
      stepsConditions cs ++ stepsClause next
  | .yield e => steps e

def stepsParameters : List Parameter → List Step
  | [] => []
  | .value d initial :: ps =>
    .plain (.check .unknown d) :: stepsOption initial ++
      [.plain .count, .plain (.parameter d), .plain (.value d)] ++ stepsParameters ps
  | .functional d initial lists :: ps =>
    .plain (.check .unknown d) :: stepsOption initial ++ [.plain .count] ++
      (if t.policy.createsMethod t.program d then .plain (.method d) :: stepsLists lists
      else stepsLists lists ++ [.plain (.parameter d), .plain (.value d)]) ++
      stepsParameters ps

def stepsLists : List (List Parameter) → List Step
  | [] => []
  | ps :: lists => stepsParameters ps ++ stepsLists lists

def stepsBody : Body → List Step
  | .absent => []
  | .value e => steps e
  | .block ss => stepsBlock ss

def stepsStmt : Stmt → List Step
  | .declare head lists body =>
    (declareActs t head body).map .plain ++ stepsLists lists ++ stepsBody body ++
      (declaredActs t head).map .plain
  | .specify target value isLazy =>
    match target.referenced with
    | none => steps target ++ steps value
    | some d =>
      .plain (.check target.location d) ::
        (match Context.shortcutOf d ((t.program.decl? d).any Declaration.isMethod) isLazy value with
        | some (literal, method) => (steps target ++ steps value).map (.under literal method)
        | none => steps target ++ steps value) ++
        (specifiedActs t d).map .plain
  | .evaluate e => steps e
  | .returns e | .throws e => stepsOption e
  | .ifElse cs yes no => stepsConditions cs ++ stepsBlock yes ++ stepsBlock no
  | .whileDo cs body => stepsConditions cs ++ stepsBlock body
  | .forIn pattern e body otherwise =>
    steps e ++ pattern.variables.map (fun d => .plain (.iterated e.location d)) ++
      stepsBlock body ++ stepsBlock otherwise
  | .switch e cs otherwise => steps e ++ stepsBlockCases cs ++ stepsBlock otherwise
  | .block ss => stepsBlock ss
  | .breaks | .continues => []

def stepsBlock : List Stmt → List Step
  | [] => []
  | s :: ss => stepsStmt s ++ stepsBlock ss

def stepsBlockCases : List BlockCase → List Step
  | [] => []
  | .mk es body :: cs => stepsAll es ++ stepsBlock body ++ stepsBlockCases cs

end

/-- The steps of a unit. -/
def itinerary (u : SourceUnit) : List Step := t.stepsBlock u.statements

end Target

/-! ## What a step does -/

namespace Decide.Follows
variable {c : Context}

theorem act (a : Act) : Follows (Write c.toTarget ⊤ (· ∈ a.forced)) (a.run c) := by
  have all (d : DeclId) : (⊤ : DeclId → Prop) d := trivial
  cases a with
  | check l d => exact lookupAt_bind fun _ _ => pure ()
  | count => exact count _
  | strip head body => exact stripUnderlying head body
  | force l d =>
    exact lookupAt_bind fun _ hx => force (Program.hasDecl_of_decl? hx) (List.mem_singleton_self d)
  | literal l d =>
    exact lookupAt_bind fun _ hx =>
      seq (count _) (force (Program.hasDecl_of_decl? hx) (List.mem_singleton_self d))
  | iterated l d => exact visitIterated all l (List.mem_singleton_self d)
  | variable_ d => exact visitVariable all d
  | value d => exact visitValue all d
  | method d => exact visitMethod all d
  | decide d => exact decideValue all d
  | typeParameter l d => exact visitTypeParameter l d
  | parameter d => exact lookup_bind fun _ _ => bind (ofExcept _) fun _ => pure ()

theorem step (s : Step) : Follows (Write c.toTarget ⊤ (· ∈ s.act.forced)) (s.run c) := by
  intro t
  obtain ⟨hw, hr, hp⟩ := act (c := c) s.act
    { t with rewrites := ⟨s.standing ++ t.rewrites.entries⟩ }
  refine ⟨hw, ?_, hp⟩
  simp only [Step.run, after_between, hr, List.drop_left]

end Decide.Follows

namespace Context
open Target
variable (c : Context)

@[simp] theorem perform_nil : c.perform [] = pure () := rfl

theorem perform_cons (s : Step) (ss : List Step) :
    c.perform (s :: ss) = s.run c >>= fun _ => c.perform ss := rfl

theorem perform_append (ss ts : List Step) :
    c.perform (ss ++ ts) = c.perform ss >>= fun _ => c.perform ts := by
  induction ss with
  | nil => rfl
  | cons s ss ih => rw [List.cons_append, perform_cons, ih, perform_cons, bind_assoc]

theorem perform_plain_cons (a : Act) (ss : List Step) :
    c.perform (.plain a :: ss) = a.run c >>= fun _ => c.perform ss := rfl

@[simp] theorem perform_plain (a : Act) : c.perform [.plain a] = a.run c := by
  rw [perform_plain_cons, perform_nil]
  exact bind_pure_unit

theorem perform_map {α : Type} (f : α → Act) (as : List α) :
    c.perform (as.map fun a => .plain (f a)) = as.forM fun a => (f a).run c := by
  induction as with
  | nil => rfl
  | cons a as ih =>
    rw [List.map_cons, perform_plain_cons, ih]
    rfl

theorem standingFor_step (literal method : DeclId) (s : Step) :
    Decide.standingFor literal method (s.run c) = (s.under literal method).run c := by
  refine Decide.ext (fun t => ?_) fun t => ?_
  · simp [Decide.standingFor, Step.run, Step.under, Rewrites.push]
  · simp [Decide.standingFor, Step.run, Step.under, Rewrites.push, Rewrites.pop]

/-- The literal stands for the method in every step of what it encloses. -/
theorem standingFor_perform (literal method : DeclId) (ss : List Step) :
    Decide.standingFor literal method (c.perform ss) =
      c.perform (ss.map (.under literal method)) := by
  induction ss with
  | nil => rfl
  | cons s ss ih =>
    rw [List.map_cons, perform_cons, perform_cons, ← ih, ← standingFor_step]
    refine Decide.between_seq fun t => ?_
    have hr := (Decide.Follows.step (c := c) s
      { t with rewrites := t.rewrites.push literal method }).rewrites
    generalize Decide.after (s.run c) _ = u at hr
    obtain ⟨m, past, r, p, stats⟩ := u
    subst hr
    rfl

theorem lookupAt_seq {β : Type} {l : Location} {d : DeclId} {f : Declaration → Decide β} {y : Decide β}
    (h : ∀ x, c.program.decl? d = some x → f x = y) :
    c.lookupAt l d >>= f = (Act.check l d).run c >>= fun _ => y := by
  change _ = (c.lookupAt l d >>= fun _ => pure ()) >>= fun _ => y
  rw [bind_assoc, lookupAt]
  cases hx : c.program.decl d l with
  | ok x =>
    rw [← h x (Program.decl_eq_ok_iff.mp hx)]
    rfl
  | error e => rfl

theorem run_parameter {d : DeclId} {x : Declaration} (hx : c.program.decl? d = some x) :
    (Act.parameter d).run c =
      (MonadExcept.ofExcept (c.program.parameterized d x) >>= fun _ => pure () : Decide Unit) := by
  change c.lookup d >>= _ = _
  rw [lookup, lookupAt, Program.decl_eq_ok_iff.mpr hx]
  rfl

theorem perform_declaredActs {head : DeclareHead} {x : Declaration}
    (hx : c.program.decl? head.declaration = some x) :
    c.perform ((c.declaredActs head).map .plain) = (do
      head.typeParameters.forM (c.visitTypeParameter head.location)
      Decide.countVisit
      c.visitDeclared head.declaration head.location x.kind) := by
  rw [declaredActs, hx, List.map_append, perform_append, List.map_cons, perform_plain_cons,
    List.map_map]
  refine congrArg₂ _ (c.perform_map _ _) (funext fun _ => bind_congr fun _ => ?_)
  rw [Option.map_some]
  cases x.kind with
  | value => exact c.perform_plain (.value _)
  | method => exact c.perform_plain (.method _)
  | typeParameter => exact c.perform_plain (.typeParameter _ _)
  | setter parameter =>
    rw [List.map_cons, List.map_cons, perform_plain_cons, List.map_nil, perform_plain]
    exact (c.lookupAt_seq fun _ _ => rfl).symm
  | classType | interfaceType | typeAlias => rfl

theorem perform_specifiedActs {d : DeclId} {x : Declaration} (hx : c.program.decl? d = some x) :
    c.perform ((c.specifiedActs d).map .plain) =
      if x.isMethod then c.visitMethod d else if x.isValue then c.visitValue d else pure () := by
  rw [specifiedActs, hx, Option.map_some, Declaration.isMethod, Declaration.isValue]
  cases x.kind with
  | value => exact c.perform_plain (.value d)
  | method => exact c.perform_plain (.method d)
  | setter | classType | interfaceType | typeAlias | typeParameter => rfl

mutual

theorem walk_eq : (e : Expr) → c.walk e = c.perform (c.steps e)
  | .mk _ (.literal _) | .mk _ (.base _ _) | .mk _ (.constructor _) | .mk _ (.typeLiteral _)
  | .mk _ .this | .mk _ .super | .mk _ .outer => rfl
  | .mk _ (.template es) | .mk _ (.tuple es) | .mk _ (.sequence es) => walkAll_eq es
  | .mk _ (.member e _ _ _) | .mk _ (.paren e) | .mk _ (.unary _ e) | .mk _ (.present e)
  | .mk _ (.nonempty e) | .mk _ (.isOf e _) | .mk _ (.spread e) => walk_eq e
  | .mk _ (.call f es) => by
    rw [walk, steps, perform_append, walk_eq f, walkAll_eq es]
  | .mk _ (.callNamed f as) => by
    rw [walk, steps, perform_append, walk_eq f, walkNamed_eq as]
  | .mk _ (.binary _ a b) | .mk _ (.assign a b) | .mk _ (.element a b) => by
    rw [walk, steps, perform_append, walk_eq a, walk_eq b]
  | .mk _ (.within a b d) => by
    rw [walk, steps, perform_append, perform_append, bind_assoc, walk_eq a, walk_eq b, walk_eq d]
  | .mk _ (.choose cs yes no) => by
    rw [walk, steps, perform_append, perform_append, bind_assoc, walkConditions_eq cs, walk_eq yes,
      walk_eq no]
  | .mk _ (.switch e cs otherwise) => by
    rw [walk, steps, perform_append, perform_append, bind_assoc, walk_eq e, walkCases_eq cs,
      walkOption_eq otherwise]
  | .mk _ (.letIn bs result) => by
    rw [walk, steps, perform_append, walkBindings_eq bs, walk_eq result]
  | .mk n (.function literal lists body) => by
    rw [walk, steps, perform_append, perform_append, bind_assoc, walkLists_eq lists,
      walkBody_eq body]
    cases literal with
    | none => rfl
    | some d =>
      rw [Option.toList_some, List.map_cons, List.map_nil, perform_plain]
      rfl
  | .mk _ (.span e first last) => by
    rw [walk, steps, perform_append, perform_append, bind_assoc, walk_eq e, walkOption_eq first,
      walkOption_eq last]
  | .mk _ (.comprehension clause) => walkClause_eq clause

theorem walkAll_eq : (es : List Expr) → c.walkAll es = c.perform (c.stepsAll es)
  | [] => rfl
  | e :: es => by rw [walkAll, stepsAll, perform_append, walk_eq e, walkAll_eq es]

theorem walkOption_eq : (e : Option Expr) → c.walkOption e = c.perform (c.stepsOption e)
  | none => rfl
  | some e => walk_eq e

theorem walkNamed_eq : (as : List NamedArgument) → c.walkNamed as = c.perform (c.stepsNamed as)
  | [] => rfl
  | .specified _ e :: as => by
    rw [walkNamed, stepsNamed, perform_append, walk_eq e, walkNamed_eq as]
  | .attribute d body :: as => by
    rw [walkNamed, stepsNamed, perform_append, perform_append, bind_assoc, walkBody_eq body,
      walkNamed_eq as, perform_plain_cons, perform_plain_cons, perform_plain, bind_assoc, bind_assoc]
    exact bind_congr fun _ => c.lookupAt_seq fun _ _ => rfl
  | .method d lists body :: as => by
    rw [walkNamed, stepsNamed, perform_append, perform_append, perform_append, bind_assoc,
      bind_assoc, walkLists_eq lists, walkBody_eq body, walkNamed_eq as, perform_plain, Act.run,
      bind_assoc]
    rfl
  | .sequenced es :: as => by
    rw [walkNamed, stepsNamed, perform_append, walkAll_eq es, walkNamed_eq as]

theorem walkConditions_eq : (cs : List Condition) →
    c.walkConditions cs = c.perform (c.stepsConditions cs)
  | [] => rfl
  | .mk test e :: cs => by
    rw [walkConditions, stepsConditions, perform_append, perform_append, bind_assoc, walk_eq e,
      walkConditions_eq cs, perform_map]
    cases test.variable? with
    | none => rfl
    | some d => exact bind_congr fun _ => congrArg (· >>= _) (bind_pure_unit (x := c.visitVariable d)).symm

theorem walkBindings_eq : (bs : List Binding) → c.walkBindings bs = c.perform (c.stepsBindings bs)
  | [] => rfl
  | .mk d e :: bs => by
    rw [walkBindings, stepsBindings, perform_append, perform_append, bind_assoc, walk_eq e,
      walkBindings_eq bs, perform_plain_cons, perform_plain, bind_assoc]
    exact bind_congr fun _ => c.lookupAt_seq fun _ _ => rfl

theorem walkCases_eq : (cs : List ValueCase) → c.walkCases cs = c.perform (c.stepsCases cs)
  | [] => rfl
  | .mk es result :: cs => by
    rw [walkCases, stepsCases, perform_append, perform_append, bind_assoc, walkAll_eq es,
      walk_eq result, walkCases_eq cs]

theorem walkClause_eq : (k : Clause) → c.walkClause k = c.perform (c.stepsClause k)
  | .forIn pattern e next => by
    rw [walkClause, stepsClause, perform_append, perform_append, bind_assoc, walk_eq e,
      walkClause_eq next, perform_map]
    rfl
  | .onlyIf cs next => by
    rw [walkClause, stepsClause, perform_append, perform_append, bind_assoc, walkConditions_eq cs,
      walkClause_eq next, perform_map]
    rfl
  | .yield e => walk_eq e

theorem walkParameters_eq : (ps : List Parameter) →
    c.walkParameters ps = c.perform (c.stepsParameters ps)
  | [] => rfl
  | .value d initial :: ps => by
    rw [walkParameters, stepsParameters, List.cons_append, List.cons_append, perform_plain_cons,
      perform_append, perform_append, perform_plain_cons, perform_plain_cons, perform_plain,
      walkOption_eq initial, walkParameters_eq ps]
    refine c.lookupAt_seq fun x hx => ?_
    rw [c.run_parameter hx]
    simp only [bind_assoc, pure_bind]
    rfl
  | .functional d initial lists :: ps => by
    rw [walkParameters, stepsParameters, List.cons_append, List.cons_append, List.cons_append,
      perform_plain_cons, perform_append, perform_append, perform_append, perform_plain,
      walkOption_eq initial, walkLists_eq lists, walkParameters_eq ps]
    refine c.lookupAt_seq fun x hx => ?_
    simp only [bind_assoc]
    refine bind_congr fun _ => bind_congr fun _ => ?_
    split
    · rw [perform_plain_cons, bind_assoc]
      rfl
    · rw [perform_append, perform_plain_cons, perform_plain, c.run_parameter hx]
      simp only [bind_assoc, pure_bind]
      rfl

theorem walkLists_eq : (lists : List (List Parameter)) →
    c.walkLists lists = c.perform (c.stepsLists lists)
  | [] => rfl
  | ps :: lists => by
    rw [walkLists, stepsLists, perform_append, walkParameters_eq ps, walkLists_eq lists]

theorem walkBody_eq : (body : Body) → c.walkBody body = c.perform (c.stepsBody body)
  | .absent => rfl
  | .value e => walk_eq e
  | .block ss => walkBlock_eq ss

theorem walkStmt_eq : (s : Stmt) → c.walkStmt s = c.perform (c.stepsStmt s)
  | .declare head lists body => by
    rw [walkStmt, stepsStmt, declareActs, List.map_cons, List.cons_append, List.cons_append,
      List.cons_append, perform_plain_cons, walkLists_eq lists, walkBody_eq body]
    refine c.lookupAt_seq fun x hx => ?_
    rw [perform_append, c.perform_declaredActs hx, perform_append, perform_append, hx,
      Option.any_some]
    simp only [bind_assoc]
    split
    · rw [List.map_cons, List.map_nil, perform_plain]
      rfl
    · rfl
  | .specify target value isLazy => by
    rw [walkStmt, stepsStmt, walk_eq target, walk_eq value]
    cases target.referenced with
    | none => exact (c.perform_append _ _).symm
    | some d =>
      dsimp only
      rw [List.cons_append, perform_plain_cons]
      refine c.lookupAt_seq fun x hx => ?_
      rw [perform_append, c.perform_specifiedActs hx, hx, Option.any_some]
      cases shortcutOf d x.isMethod isLazy value with
      | none => rw [perform_append, bind_assoc]
      | some pair => rw [← standingFor_perform, perform_append]
  | .evaluate e => walk_eq e
  | .returns e | .throws e => walkOption_eq e
  | .ifElse cs yes no => by
    rw [walkStmt, stepsStmt, perform_append, perform_append, bind_assoc, walkConditions_eq cs,
      walkBlock_eq yes, walkBlock_eq no]
  | .whileDo cs body => by
    rw [walkStmt, stepsStmt, perform_append, walkConditions_eq cs, walkBlock_eq body]
  | .forIn pattern e body otherwise => by
    rw [walkStmt, stepsStmt, perform_append, perform_append, perform_append, bind_assoc, bind_assoc,
      walk_eq e, walkBlock_eq body, walkBlock_eq otherwise, perform_map]
    rfl
  | .switch e cs otherwise => by
    rw [walkStmt, stepsStmt, perform_append, perform_append, bind_assoc, walk_eq e,
      walkBlockCases_eq cs, walkBlock_eq otherwise]
  | .block ss => walkBlock_eq ss
  | .breaks | .continues => rfl

theorem walkBlock_eq : (ss : List Stmt) → c.walkBlock ss = c.perform (c.stepsBlock ss)
  | [] => rfl
  | s :: ss => by rw [walkBlock, stepsBlock, perform_append, walkStmt_eq s, walkBlock_eq ss]

theorem walkBlockCases_eq : (cs : List BlockCase) →
    c.walkBlockCases cs = c.perform (c.stepsBlockCases cs)
  | [] => rfl
  | .mk es body :: cs => by
    rw [walkBlockCases, stepsBlockCases, perform_append, perform_append, bind_assoc, walkAll_eq es,
      walkBlock_eq body, walkBlockCases_eq cs]

end

/-- To decide a unit is to take its steps one after the other. -/
theorem decideUnit_eq (u : SourceUnit) : c.decideUnit u = c.perform (c.itinerary u) :=
  c.walkBlock_eq u.statements

end Context

end Unbox
