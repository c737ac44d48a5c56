import Unbox.Proofs.Fixpoint
import Unbox.Proofs.Notes

/-!
# A second run changes nothing

A run notes what it finds, and it finds the same when it is repeated on what it left behind.

* `Context.decideUnits_congr` : the walk over the declarations looks at no flag;
* `Account.raw_of_literalType` : the type of every type literal is raw in the end;
* `Target.Exhausted m units` : there is nothing left to be found about the units;
* `Target.exhausted_of_run` : so it is after a run that does not fail;
* `Target.run_confirms` : a run then confirms what there is;
* `Target.rerun_keeps_findings` : so a second run changes nothing that is settled;
  `Target.rerun_keeps_standard`, with the standard policy.
-/

namespace Unbox

/-! ## Flags are not looked at -/

namespace Context
open Bare
variable (c : Context)

theorem shortcutOf_bare (d : DeclId) (isMethod isLazy : Bool) (value : Expr) :
    shortcutOf d isMethod isLazy (expr value) = shortcutOf d isMethod isLazy value := by
  unfold shortcutOf
  rw [unwrap_expr]
  generalize value.unwrap = e
  obtain ⟨n, form⟩ := e
  cases form with
  | function literal => cases literal <;> cases isMethod <;> cases isLazy <;> rfl
  | _ => cases isMethod <;> cases isLazy <;> rfl

theorem stripUnderlying_bare (head : DeclareHead) (b : Body) :
    c.stripUnderlying head (body b) = c.stripUnderlying head b := by
  cases b with
  | value e =>
    unfold stripUnderlying
    dsimp only [body]
    rw [type_expr]
  | absent | block => rfl

mutual

/-- The walk goes by forms, ids, types and places, and by no flag. -/
theorem walk_bare : (e : Expr) → c.walk (expr e) = c.walk e
  | .mk _ (.literal _) | .mk _ (.base _ _) | .mk _ (.constructor _) | .mk _ (.typeLiteral _)
  | .mk _ .this | .mk _ .super | .mk _ .outer => rfl
  | .mk _ (.template es) | .mk _ (.tuple es) | .mk _ (.sequence es) => walkAll_bare es
  | .mk _ (.member e _ _ _) | .mk _ (.paren e) | .mk _ (.unary _ e) | .mk _ (.present e)
  | .mk _ (.nonempty e) | .mk _ (.isOf e _) | .mk _ (.spread e) => walk_bare e
  | .mk _ (.call f es) => by
    simp only [expr, form, walk, walk_bare f, walkAll_bare es]
  | .mk _ (.callNamed f as) => by
    simp only [expr, form, walk, walk_bare f, walkNamed_bare as]
  | .mk _ (.binary _ a b) | .mk _ (.assign a b) | .mk _ (.element a b) => by
    simp only [expr, form, walk, walk_bare a, walk_bare b]
  | .mk _ (.within a b d) => by
    simp only [expr, form, walk, walk_bare a, walk_bare b, walk_bare d]
  | .mk _ (.choose cs yes no) => by
    simp only [expr, form, walk, walkConditions_bare cs, walk_bare yes, walk_bare no]
  | .mk _ (.switch e cs otherwise) => by
    simp only [expr, form, walk, walk_bare e, walkCases_bare cs, walkOption_bare otherwise]
  | .mk _ (.letIn bs result) => by
    simp only [expr, form, walk, walkBindings_bare bs, walk_bare result]
  | .mk _ (.function _ ls b) => by
    simp only [expr, form, walk, walkLists_bare ls, walkBody_bare b]
  | .mk _ (.span e first last) => by
    simp only [expr, form, walk, walk_bare e, walkOption_bare first, walkOption_bare last]
  | .mk _ (.comprehension k) => walkClause_bare k

theorem walkAll_bare : (es : List Expr) → c.walkAll (all es) = c.walkAll es
  | [] => rfl
  | e :: es => by simp only [all, walkAll, walk_bare e, walkAll_bare es]

theorem walkOption_bare : (e : Option Expr) → c.walkOption (option e) = c.walkOption e
  | none => rfl
  | some e => walk_bare e

theorem walkNamed_bare : (as : List NamedArgument) → c.walkNamed (named as) = c.walkNamed as
  | [] => rfl
  | .specified _ e :: as => by simp only [named, walkNamed, walk_bare e, walkNamed_bare as]
  | .attribute _ b :: as => by simp only [named, walkNamed, walkBody_bare b, walkNamed_bare as]
  | .method _ ls b :: as => by
    simp only [named, walkNamed, walkLists_bare ls, walkBody_bare b, walkNamed_bare as]
  | .sequenced es :: as => by simp only [named, walkNamed, walkAll_bare es, walkNamed_bare as]

theorem walkConditions_bare : (cs : List Condition) →
    c.walkConditions (conditions cs) = c.walkConditions cs
  | [] => rfl
  | .mk _ e :: cs => by
    simp only [conditions, walkConditions, walk_bare e, walkConditions_bare cs]

theorem walkBindings_bare : (bs : List Binding) → c.walkBindings (bindings bs) = c.walkBindings bs
  | [] => rfl
  | .mk _ e :: bs => by
    simp only [bindings, walkBindings, walk_bare e, walkBindings_bare bs, location_expr]

theorem walkCases_bare : (cs : List ValueCase) → c.walkCases (cases cs) = c.walkCases cs
  | [] => rfl
  | .mk es result :: cs => by
    simp only [cases, walkCases, walkAll_bare es, walk_bare result, walkCases_bare cs]

theorem walkClause_bare : (k : Clause) → c.walkClause (clause k) = c.walkClause k
  | .forIn _ e next => by
    simp only [clause, walkClause, walk_bare e, walkClause_bare next, location_expr]
  | .onlyIf cs next => by
    simp only [clause, walkClause, variables_conditions, walkConditions_bare cs,
      walkClause_bare next]
  | .yield e => walk_bare e

theorem walkParameters_bare : (ps : List Parameter) →
    c.walkParameters (parameters ps) = c.walkParameters ps
  | [] => rfl
  | .value _ initial :: ps => by
    simp only [parameters, walkParameters, walkOption_bare initial, walkParameters_bare ps]
  | .functional _ initial ls :: ps => by
    simp only [parameters, walkParameters, walkOption_bare initial, walkLists_bare ls,
      walkParameters_bare ps]

theorem walkLists_bare : (ls : List (List Parameter)) → c.walkLists (lists ls) = c.walkLists ls
  | [] => rfl
  | ps :: ls => by simp only [lists, walkLists, walkParameters_bare ps, walkLists_bare ls]

theorem walkBody_bare : (b : Body) → c.walkBody (body b) = c.walkBody b
  | .absent => rfl
  | .value e => walk_bare e
  | .block ss => walkBlock_bare ss

theorem walkStmt_bare : (s : Stmt) → c.walkStmt (stmt s) = c.walkStmt s
  | .declare head ls b => by
    simp only [stmt, walkStmt, stripUnderlying_bare, walkLists_bare ls, walkBody_bare b]
  | .specify target value _ => by
    simp only [stmt, walkStmt, referenced_expr, location_expr, shortcutOf_bare, walk_bare target,
      walk_bare value]
  | .evaluate e => walk_bare e
  | .returns e | .throws e => walkOption_bare e
  | .ifElse cs yes no => by
    simp only [stmt, walkStmt, walkConditions_bare cs, walkBlock_bare yes, walkBlock_bare no]
  | .whileDo cs b => by simp only [stmt, walkStmt, walkConditions_bare cs, walkBlock_bare b]
  | .forIn _ e b otherwise => by
    simp only [stmt, walkStmt, walk_bare e, walkBlock_bare b, walkBlock_bare otherwise,
      location_expr]
  | .switch e cs otherwise => by
    simp only [stmt, walkStmt, walk_bare e, walkBlockCases_bare cs, walkBlock_bare otherwise]
  | .block ss => walkBlock_bare ss
  | .breaks | .continues => rfl

theorem walkBlock_bare : (ss : List Stmt) → c.walkBlock (block ss) = c.walkBlock ss
  | [] => rfl
  | s :: ss => by simp only [block, walkBlock, walkStmt_bare s, walkBlock_bare ss]

theorem walkBlockCases_bare : (cs : List BlockCase) →
    c.walkBlockCases (blockCases cs) = c.walkBlockCases cs
  | [] => rfl
  | .mk es b :: cs => by
    simp only [blockCases, walkBlockCases, walkAll_bare es, walkBlock_bare b,
      walkBlockCases_bare cs]

end

theorem decideUnit_bare (u : SourceUnit) : c.decideUnit u.bare = c.decideUnit u :=
  c.walkBlock_bare u.statements

/-- Units that differ in flags only are decided in the same way. -/
theorem decideUnits_congr {us vs : List SourceUnit}
    (h : us.map SourceUnit.bare = vs.map SourceUnit.bare) (m : Marks) :
    c.decideUnits m us = c.decideUnits m vs := by
  have hbare (us : List SourceUnit) :
      us.forM c.decideUnit = (us.map SourceUnit.bare).forM c.decideUnit := by
    induction us with
    | nil => rfl
    | cons u us ih =>
      simp only [List.forM_eq_forM, List.map_cons, List.forM_cons, decideUnit_bare] at ih ⊢
      rw [ih]
  unfold decideUnits
  rw [hbare us, hbare vs, h]

end Context

/-! ## Type literals -/

theorem Site.LiteralType.congr {sites sites' : List Site} {a : TypeId}
    (hl : LiteralType sites a) (h : (sites.map fun site => Bare.expr site.expr) =
      sites'.map fun site => Bare.expr site.expr) : LiteralType sites' a := by
  obtain ⟨site, hsite, ⟨target, hform⟩, htype⟩ := hl
  have hmem : Bare.expr site.expr ∈ sites'.map fun site => Bare.expr site.expr :=
    h ▸ List.mem_map_of_mem hsite
  obtain ⟨other, hother, heq⟩ := List.mem_map.mp hmem
  refine ⟨other, hother, ⟨target, ?_⟩, ?_⟩
  · obtain ⟨_, ⟨n, form⟩⟩ := site
    obtain ⟨_, ⟨n', form'⟩⟩ := other
    obtain rfl : form = .typeLiteral (.type target) := hform
    have hform' : Bare.form form' = .typeLiteral (.type target) := (Expr.mk.inj heq).2
    cases form' with
    | typeLiteral => exact hform'
    | _ => cases hform'
  · rw [← htype, ← Bare.type_expr, heq, Bare.type_expr]

theorem Target.marks_raw_of_find {t : Target} {m : Marks} {scopes : List DeclId} {n : Node}
    {target a : TypeId} {found : Finding}
    (h : t.find m scopes n (.typeLiteral (.type target)) = .ok found) (ha : n.type = some a) :
    found.marks.raw a = true := by
  obtain ⟨⟨⟩, -, h⟩ := exists_of_bind_eq_ok h
  cases h
  simp [ha, Marks.raw, Marks.setRaw, Marks.updateType, Column.get_update]

namespace Account
variable {t : Target} {F : DeclId → Prop} {base : List DeclId} {sites : List Site} {j j' : Journal}

theorem raw_of_raw (h : Account t F base sites j j') {a : TypeId} (ha : j.marks.raw a = true) :
    j'.marks.raw a = true := by
  induction h with
  | done => exact ha
  | quiet hq _ ih => exact ih (hq.grows.raw a ha)
  | @rule site _ j _ found hr _ _ ih =>
    refine ih ?_
    rcases Target.find_touches (F := ⊤) hr with hm | hm
    · exact (congrArg (·.raw a) hm).trans ha
    · exact hm.grows.raw a ha

/-- The rule of a type literal makes its type raw, and no other step takes that back. -/
theorem raw_of_literalType (h : Account t F base sites j j') {a : TypeId}
    (hl : Site.LiteralType sites a) : j'.marks.raw a = true := by
  induction h with
  | done =>
    obtain ⟨site, hsite, -⟩ := hl
    cases hsite
  | quiet _ _ ih => exact ih hl
  | @rule site sites j j' found hr hf hrest ih =>
    obtain ⟨other, hother, ⟨target, hform⟩, htype⟩ := hl
    rcases List.mem_cons.mp hother with rfl | hother
    · refine hrest.raw_of_raw ?_
      rw [hform] at hr
      exact Target.marks_raw_of_find hr htype
    · exact ih ⟨other, hother, ⟨target, hform⟩, htype⟩

end Account

/-! ## The visit of what is settled -/

namespace Target
variable {t : Target} {isRecording : Bool} {m : Marks} {units : List SourceUnit}

/-- What the units force is boxed already, so only the types of type literals may change. -/
theorem visitUnits_agrees (hb : ∀ u ∈ units, ∀ d ∈ u.forced, m.unboxed d = some false)
    (hf : (t.visitUnits isRecording m units).2.failure = none) :
    m.Agree t (Site.LiteralType (Layout.sources.sites units))
      (t.visitUnits isRecording m units).2.marks := by
  let F (d : DeclId) : Prop := ∃ u ∈ units, d ∈ u.forced
  have hF : Forces F (units.flatMap SourceUnit.parts) := .units fun u hu d hd => ⟨u, hu, hd⟩
  have haccount := (t.mapM_visits units).account hF (.start m _) hf
  have hboxed : ∀ d, F d → m.unboxed d = some false := by
    rintro d ⟨u, hu, hd⟩
    exact hb u hu d hd
  have hliteral (a : TypeId) := Site.LiteralType.congr (a := a)
    (h := (t.mapM_visits units).expressions_bare { marks := m, isRecording })
  exact (haccount.agrees hboxed hliteral (.refl m)).1

theorem raw_of_visitUnits (hf : (t.visitUnits isRecording m units).2.failure = none) {a : TypeId}
    (ha : Site.LiteralType (Layout.sources.sites units) a) :
    (t.visitUnits isRecording m units).2.marks.raw a = true := by
  have haccount := (t.mapM_visits units).account (F := ⊤) (fun _ _ _ _ => trivial) (.start m _) hf
  refine haccount.raw_of_literalType (ha.congr ?_)
  exact ((t.mapM_visits units).expressions_bare _).symm

/-- With the marks `m` a run over the units finds nothing new: all that it notes is noted, all that
it forces is boxed, and the type of every type literal is raw. -/
structure Exhausted (t : Target) (m : Marks) (units : List SourceUnit) : Prop where
  noted : ∀ u ∈ units, ∀ st ∈ t.itinerary u, ∀ d ∈ st.act.noted, t.Noted m d
  boxed : ∀ u ∈ units, ∀ d ∈ u.forced, m.unboxed d = some false
  raw : ∀ a, Site.LiteralType (Layout.sources.sites units) a → m.raw a = true

/-- A run that does not fail leaves nothing to be found. -/
theorem exhausted_of_run (hs : t.policy.IsSteady t.program) {settings : Settings}
    (hrun : (t.run settings m units).result.isOk = true) :
    t.Exhausted (t.run settings m units).marks units := by
  obtain ⟨hdecided, hf⟩ := ok_of_run hrun
  obtain ⟨report, hout⟩ := run_of_ok hdecided hf
  rw [hout]
  let c : Context := { t with limit := settings.maxDepth }
  have hboxed : ∀ u ∈ units, ∀ d ∈ u.forced,
      (c.decideUnits m units).2.marks.unboxed d = some false :=
    fun u hu d hd => Context.boxed_of_decideUnits hu hd hdecided
  have hagrees := visitUnits_agrees hboxed hf
  have hretains : (c.decideUnits m units).2.marks.Retains t
      (t.visitUnits settings.collectReport (c.decideUnits m units).2.marks units).2.marks :=
    ⟨fun d hd => (congrArg DeclarationMarks.typeErased (hagrees.declarations d)).trans hd,
      fun d hd => (congrArg DeclarationMarks.untrusted (hagrees.declarations d)).trans hd,
      (t.visitUnits_grows _ _ units).raw, hagrees.bounds⟩
  refine ⟨fun u hu st hst d hd => ?_, fun u hu d hd => ?_, fun a ha => raw_of_visitUnits hf ha⟩
  · have hnoted : t.Noted (c.decideUnits m units).2.marks d :=
      Context.noted_of_decideUnits hs hu hst hd hdecided
    exact hnoted.retains hs hretains
  · exact (hagrees.unboxed d).trans (hboxed u hu d hd)

/-- If nothing is left to be found about the units, a run over the units as they were visited before
confirms all findings. -/
theorem run_confirms (hs : t.policy.IsSteady t.program) (h : t.Exhausted m units)
    {us : List SourceUnit} (hbare : us.map SourceUnit.bare = units.map SourceUnit.bare)
    (hsites : ((Layout.sources.sites us).map fun site => Bare.expr site.expr) =
      (Layout.sources.sites units).map fun site => Bare.expr site.expr)
    {settings : Settings} (hrun : (t.run settings m us).result.isOk = true) :
    m.Confirms t (t.run settings m us).marks := by
  obtain ⟨hdecided, hf⟩ := ok_of_run hrun
  obtain ⟨report, hout⟩ := run_of_ok hdecided hf
  rw [hout]
  let c : Context := { t with limit := settings.maxDepth }
  have hfirst : m.Confirms t (c.decideUnits m us).2.marks := by
    rw [c.decideUnits_congr hbare]
    exact Context.decideUnits_confirms (c := c) hs h.noted h.boxed
  have hagrees := visitUnits_agrees
    (fun u hu d hd => Context.boxed_of_decideUnits hu hd hdecided) hf
  refine hfirst.trans ⟨fun d => ?_, fun d => ?_, fun a => ?_, fun d b hb => ?_, hagrees.bounds⟩
  · exact congrArg DeclarationMarks.typeErased (hagrees.declarations d)
  · exact congrArg DeclarationMarks.untrusted (hagrees.declarations d)
  · by_cases hl : Site.LiteralType (Layout.sources.sites us) a
    · have hraw := (hfirst.raw a).trans (h.raw a (hl.congr hsites))
      exact (raw_of_visitUnits hf hl).trans hraw.symm
    · exact hagrees.raw a hl
  · exact (hagrees.unboxed d).trans hb

/-- What a run left behind is confirmed by a second run on it, if neither fails. -/
theorem rerun_confirms {t : Target} (hpolicy : t.policy.IsSteady t.program)
    {settings settings' : Settings} {m : Marks} {units : List SourceUnit}
    (hrun : (t.run settings m units).result.isOk = true)
    (hrerun : (t.run settings' (t.run settings m units).marks
      (t.run settings m units).units).result.isOk = true) :
    (t.run settings m units).marks.Confirms t
      (t.run settings' (t.run settings m units).marks (t.run settings m units).units).marks := by
  obtain ⟨hdecided, hf⟩ := ok_of_run hrun
  obtain ⟨report, hout⟩ := run_of_ok hdecided hf
  have hunits : (t.run settings m units).units = _ := congrArg Outcome.units hout
  have hbare : (t.run settings m units).units.map SourceUnit.bare = units.map SourceUnit.bare := by
    rw [hunits]
    exact (t.mapM_visits units).bare _
  have hsites : ((Layout.sources.sites (t.run settings m units).units).map fun site =>
      Bare.expr site.expr) =
        (Layout.sources.sites units).map fun site => Bare.expr site.expr := by
    rw [hunits]
    exact (t.mapM_visits units).expressions_bare _
  exact run_confirms hpolicy (exhausted_of_run hpolicy hrun) hbare hsites hrerun

/-- If a run does not fail, and neither does a second one on what the first left behind, the second
run changes nothing that is settled: no declaration is erased or distrusted that was not so before,
no decision changes, and no type becomes raw. -/
theorem rerun_keeps_findings (t : Target) (hpolicy : t.policy.IsSteady t.program)
    (settings settings' : Settings) (m : Marks) (units : List SourceUnit)
    (hrun : (t.run settings m units).result.isOk = true)
    (hrerun : (t.run settings' (t.run settings m units).marks
      (t.run settings m units).units).result.isOk = true) :
    let out := t.run settings m units
    let again := t.run settings' out.marks out.units
    (∀ d, again.marks.typeErased d = out.marks.typeErased d ∧
      again.marks.untrusted d = out.marks.untrusted d ∧
      ∀ b, out.marks.unboxed d = some b → again.marks.unboxed d = some b) ∧
    ∀ a, again.marks.raw a = out.marks.raw a := by
  have hconfirms := rerun_confirms hpolicy hrun hrerun
  exact ⟨fun d => ⟨hconfirms.typeErased d, hconfirms.untrusted d, hconfirms.unboxed d⟩,
    hconfirms.raw⟩

/-- The standard policy is steady for every program. -/
theorem rerun_keeps_standard (p : Program) (settings settings' : Settings) (m : Marks)
    (units : List SourceUnit) (hrun : (run ⟨p, .standard⟩ settings m units).result.isOk = true)
    (hrerun : (run ⟨p, .standard⟩ settings' (run ⟨p, .standard⟩ settings m units).marks
      (run ⟨p, .standard⟩ settings m units).units).result.isOk = true) :
    let out := run ⟨p, .standard⟩ settings m units
    let again := run ⟨p, .standard⟩ settings' out.marks out.units
    (∀ d, again.marks.typeErased d = out.marks.typeErased d ∧
      again.marks.untrusted d = out.marks.untrusted d ∧
      ∀ b, out.marks.unboxed d = some b → again.marks.unboxed d = some b) ∧
    ∀ a, again.marks.raw a = out.marks.raw a := by
  have hconfirms := rerun_confirms (Policy.standard_isSteady p) hrun hrerun
  exact ⟨fun d => ⟨hconfirms.typeErased d, hconfirms.untrusted d, hconfirms.unboxed d⟩,
    hconfirms.raw⟩

/-- The iteration variable was taken for unboxed before the first run. It is boxed by both runs, and
the type of the literal becomes raw in the first. -/
theorem rerun_keeps_findings_literal :
    let units := SourceUnit.comprehension :: SourceUnit.literalMember
    let out := run ⟨.uses, .standard⟩ {} (({} : Marks).setUnboxed ⟨1⟩ true) units
    let again := run ⟨.uses, .standard⟩ {} out.marks out.units
    Policy.standard.IsSteady .uses ∧ out.result.isOk = true ∧ again.result.isOk = true ∧
      again.marks.unboxed ⟨1⟩ = some false ∧ again.marks.raw ⟨1⟩ = true := by
  have hrun : (run ⟨.uses, .standard⟩ {} (({} : Marks).setUnboxed ⟨1⟩ true)
      (SourceUnit.comprehension :: SourceUnit.literalMember)).result.isOk = true := by
    decide +kernel
  have hrerun : (run ⟨.uses, .standard⟩ {}
      (run ⟨.uses, .standard⟩ {} (({} : Marks).setUnboxed ⟨1⟩ true)
        (SourceUnit.comprehension :: SourceUnit.literalMember)).marks
      (run ⟨.uses, .standard⟩ {} (({} : Marks).setUnboxed ⟨1⟩ true)
        (SourceUnit.comprehension :: SourceUnit.literalMember)).units).result.isOk = true := by
    decide +kernel
  obtain ⟨hdeclarations, htypes⟩ := rerun_keeps_findings ⟨.uses, .standard⟩
    (Policy.standard_isSteady .uses) {} {} _ _ hrun hrerun
  obtain ⟨-, -, hunboxed⟩ := hdeclarations ⟨1⟩
  exact ⟨Policy.standard_isSteady .uses, hrun, hrerun, hunboxed false (by decide +kernel),
    (htypes ⟨1⟩).trans (by decide +kernel)⟩

end Target

/-- A policy that is not steady: it answers by what is remembered about one type parameter. -/
def Policy.peeking : Policy :=
  { Policy.standard with
    substitutesBound := fun _ _ b => ((b.get ⟨0⟩).isSome, b)
    recalls := fun _ _ b => .refl b }

/-- A type parameter (0) and a value of that type (1). -/
def Program.generic : Program where
  decls := #[
    { name := some ⟨0⟩, kind := .typeParameter { variance := .invariant }, scope := .unit },
    { name := some ⟨1⟩, kind := .value, scope := .unit, type := some ⟨0⟩ }]
  types := #[.typeParameter ⟨0⟩]
  core := ⟨⟨3⟩, ⟨3⟩, ⟨3⟩, ⟨3⟩, ⟨3⟩, ⟨3⟩, ⟨3⟩, ⟨3⟩, ⟨3⟩, ⟨3⟩, ⟨3⟩, ⟨3⟩, ⟨3⟩, ⟨3⟩, ⟨3⟩⟩

/-- With such a policy a second run may find more: the bounds of the type parameter are settled after
the value is noted, and remembered when the value is noted again. -/
example :
    let declare (declaration : DeclId) : Stmt :=
      .declare { declaration, location := .unknown } [] .absent
    let units : List SourceUnit := [{ name := "generic", statements := [declare ⟨1⟩, declare ⟨0⟩] }]
    let out := Target.run ⟨.generic, .peeking⟩ {} {} units
    let again := Target.run ⟨.generic, .peeking⟩ {} out.marks out.units
    out.marks.typeErased ⟨1⟩ = false ∧ again.marks.typeErased ⟨1⟩ = true := by decide +kernel

end Unbox
