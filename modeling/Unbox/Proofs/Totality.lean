import Unbox.Proofs.Coverage
import Unbox.Proofs.Lookups
import Unbox.Proofs.Recording
import Unbox.Proofs.Settling

/-!
# Closed units of a closed program are analysed without a failure

* `Decide.Passes p act` : whatever the decisions so far are, `act` does not fail; one lemma for each
  way to build a step, and one for everything that is done about a declaration in the table;
* `Act.Safe p a` : what the act is about is in the table;
* `Context.decideUnits_ok` : the declarations of closed units are decided;
* `Target.find_ok` : a rule that looks up declarations of the table only does not fail;
* `Visits.passes` : the visit of closed parts does not fail;
* `Target.run_ok` : so the run as a whole does not.
-/

namespace Unbox

/-- What a declaration takes its decision from is in the table. -/
theorem Program.Closed.source {c : Context} {d e : DeclId} {x : Declaration}
    (hp : c.program.Closed) (hx : c.program.decl? d = some x) (he : c.program.hasDecl e = true) :
    c.program.hasDecl (c.source d e x) = true := by
  rcases Context.source_cases (e := e) hx with h | ⟨y, -, hy, -, -, -, hr⟩
  · rwa [h]
  · exact hp.refined hy hr

/-! ## Steps that do not fail -/

namespace Decide
variable {α β : Type} {p : Program}

/-- While literals stand for methods in the table only, `act` does not fail, and the rewrites
stay. -/
def Passes (p : Program) (act : Decide α) : Prop :=
  ∀ s : Decisions, s.rewrites.Within p →
    (∃ a, result act s = .ok a) ∧ (after act s).rewrites = s.rewrites

namespace Passes

theorem pure (a : α) : Passes p (Pure.pure a) := fun _ _ => ⟨⟨a, rfl⟩, rfl⟩

theorem bind {x : Decide α} {f : α → Decide β} (hx : Passes p x) (hf : ∀ a, Passes p (f a)) :
    Passes p (x >>= f) := by
  intro s hs
  obtain ⟨⟨a, hxa⟩, hr⟩ := hx s hs
  obtain ⟨⟨b, hfb⟩, hr'⟩ := hf a (after x s) (hr ▸ hs)
  refine ⟨⟨b, result_bind_eq_ok.mpr ⟨a, hxa, hfb⟩⟩, ?_⟩
  rw [after_bind_of_ok hxa]
  exact hr'.trans hr

theorem seq {x : Decide α} {y : Decide β} (hx : Passes p x) (hy : Passes p y) :
    Passes p (x >>= fun _ => y) := bind hx fun _ => hy

theorem ite {q : Prop} [Decidable q] {x y : Decide α} (hx : q → Passes p x)
    (hy : ¬q → Passes p y) : Passes p (if q then x else y) := by
  split
  · next h => exact hx h
  · next h => exact hy h

theorem modifyMarks (f : Marks → Marks) : Passes p (modifyMarks f) := fun _ _ => ⟨⟨(), rfl⟩, rfl⟩

theorem count (f : DeclarationStats → DeclarationStats) : Passes p (count f) :=
  fun _ _ => ⟨⟨(), rfl⟩, rfl⟩

theorem unboxed (d : DeclId) : Passes p (unboxed d) := fun _ _ => ⟨⟨_, rfl⟩, rfl⟩

theorem get : Passes p (MonadState.get : Decide Decisions) := fun _ _ => ⟨⟨_, rfl⟩, rfl⟩

theorem askBounds (question : StateM BoundMarks α) : Passes p (askBounds question) :=
  fun _ _ => ⟨⟨_, rfl⟩, rfl⟩

theorem force (d : DeclId) : Passes p (force d) := seq (modifyMarks _) (count _)

theorem ofExcept_bind {e : Except Failure α} {a : α} {f : α → Decide β} (he : e = .ok a)
    (h : Passes p (f a)) : Passes p (MonadExcept.ofExcept e >>= f) := by
  subst he
  exact h

theorem deciding {act : Decide α} (d : DeclId) (h : Passes p act) : Passes p (deciding d act) :=
  fun s hs => h { s with pending := d :: s.pending } hs

theorem forM {f : α → Decide Unit} {as : List α} (h : ∀ a ∈ as, Passes p (f a)) :
    Passes p (as.forM f) := by
  induction as with
  | nil => exact pure ()
  | cons a as ih =>
    rw [List.forM_eq_forM, List.forM_cons]
    exact seq (h a List.mem_cons_self) (ih fun b hb => h b (List.mem_cons_of_mem a hb))

/-! ## What is done about a declaration -/

section Table
variable {c : Context} {d : DeclId}

theorem lookupAt_bind {l : Location} {f : Declaration → Decide β} (hd : c.program.hasDecl d = true)
    (h : ∀ x, c.program.decl? d = some x → Passes p (f x)) : Passes p (c.lookupAt l d >>= f) := by
  obtain ⟨x, hx⟩ := Program.exists_decl? hd
  exact ofExcept_bind (Program.decl_eq_ok_iff.mpr hx) (h x hx)

theorem lookup_bind {f : Declaration → Decide β} (hd : c.program.hasDecl d = true)
    (h : ∀ x, c.program.decl? d = some x → Passes p (f x)) : Passes p (c.lookup d >>= f) :=
  lookupAt_bind hd h

theorem topmost_bind {f : DeclId → Decide β} (hp : c.program.Closed)
    (hd : c.program.hasDecl d = true)
    (h : ∀ e, c.program.hasDecl e = true → Passes c.program (f e)) :
    Passes c.program (c.topmost d >>= f) := by
  intro s hs
  rw [Context.result_topmost_bind, Context.after_topmost_bind]
  exact h _ (hp.topmost hs c.limit hd) s hs

theorem markErasure (hd : c.program.hasDecl d = true) : Passes p (c.markErasure d) := by
  unfold Context.markErasure
  refine lookup_bind hd fun x _ => ?_
  have untrusts (b : Bool) : Passes p (if b then do
      Decide.modifyMarks (·.markUntrusted d)
      Decide.count fun s => { s with untrusted := s.untrusted + 1 }
      else Pure.pure ()) :=
    ite (fun _ => seq (modifyMarks _) (count _)) fun _ => pure ()
  split
  · dsimp only
    refine ite (fun _ => bind (pure true) fun _ => ?_) fun _ => bind (askBounds _) fun _ => ?_
    · exact ite (fun _ => seq (modifyMarks _) (seq (count _) (untrusts _))) fun _ => untrusts _
    · exact ite (fun _ => seq (modifyMarks _) (seq (count _) (untrusts _))) fun _ => untrusts _
  · exact pure ()

theorem markRaw (hd : c.program.hasDecl d = true) : Passes p (c.markRaw d) := by
  unfold Context.markRaw
  refine lookup_bind hd fun x _ => ?_
  split
  · refine ite (fun _ => ?_) fun _ => pure ()
    exact ite (fun _ => seq (modifyMarks _) (count _)) fun _ => count _
  · exact pure ()

theorem isErasedTypeParameter (t : TypeId) : Passes p (c.isErasedTypeParameter t) := by
  unfold Context.isErasedTypeParameter
  split
  · exact bind (askBounds _) fun _ => pure _
  · exact pure _

theorem inheritUnderlying {refined : DeclId} (hr : c.program.hasDecl refined = true)
    (type : TypeId) : Passes p (c.inheritUnderlying d refined type) := by
  unfold Context.inheritUnderlying
  refine bind get fun _ => ite (fun _ => ?_) fun _ => pure _
  exact lookup_bind hr fun _ _ => bind get fun _ => ite (fun _ => modifyMarks _) fun _ => pure _

section Verdict
variable {inherit : DeclId → Decide Unit}

theorem inheritedFrom {z : DeclId} (hz : c.program.hasDecl z = true) (h : Passes p (inherit z)) :
    Passes p (c.inheritedFrom inherit z) :=
  seq h (seq (count _) (lookup_bind hz fun _ _ => unboxed z))

variable (hp : c.program.Closed)
  (hinherit : ∀ z, c.program.hasDecl z = true → Passes c.program (inherit z))
include hp hinherit

theorem nestedVerdict {function : DeclId} (hf : c.program.hasDecl function = true) (type : TypeId) :
    Passes c.program (c.nestedVerdict inherit d function type) := by
  refine topmost_bind hp hf fun refined hr => ite (fun _ => pure _) fun _ => ?_
  have hz :
      c.program.hasDecl ((c.positionalCounterpart function refined d).getD refined) = true := by
    cases h : c.positionalCounterpart function refined d with
    | none => exact hr
    | some e => exact hp.positionalCounterpart h
  exact inheritedFrom hz (hinherit _ hz)

theorem verdict (hd : c.program.hasDecl d = true) {refined : DeclId}
    (hr : c.program.hasDecl refined = true) (type : TypeId) :
    Passes c.program (c.verdict inherit d refined type) := by
  unfold Context.verdict
  refine lookup_bind hd fun x hx => ite (fun _ => pure _) fun _ => ?_
  refine ite (fun _ => inheritedFrom hr (hinherit _ hr)) fun _ => ?_
  refine bind (isErasedTypeParameter type) fun erased => ?_
  obtain ⟨nested, hnested, hscope⟩ := hp.inFunctionalParameter hx
  refine ofExcept_bind hnested (ite (fun _ => pure _) fun _ => ite (fun _ => pure _) fun _ => ?_)
  refine ite (fun h => ?_) fun _ => pure _
  simp only [Declaration.isValueParameter, Bool.and_eq_true] at h
  obtain ⟨owner, ho, howner⟩ := hscope h.2
  refine ofExcept_bind (Program.parameterized_of_scope h.1.2 ho) ?_
  exact ite (fun _ => nestedVerdict hp hinherit howner type) fun _ => pure _

end Verdict

theorem conclude (v : Option Bool) : Passes p (Context.conclude d v) := by
  cases v with
  | none => exact pure ()
  | some b => exact modifyMarks _

/-- By induction on the fuel, which only the declarations inherited from need. -/
theorem settleWithin (hp : c.program.Closed) (fuel : Nat) {e : DeclId}
    (hd : c.program.hasDecl d = true) (he : c.program.hasDecl e = true) :
    Passes c.program (c.settleWithin fuel d e) := by
  induction fuel generalizing d e with
  | zero => exact pure ()
  | succ fuel ih =>
    rw [Context.settleWithin_succ]
    refine lookup_bind hd fun x hx => ?_
    have hsource := hp.source hx he
    have inherits (z : DeclId) (hz : c.program.hasDecl z = true) :
        Passes c.program (c.inheritWithin fuel z) :=
      lookup_bind hz fun _ _ => bind (unboxed z) fun _ => ite (fun _ => ih hz hz) fun _ => pure ()
    split
    · next type _ =>
      refine seq (inheritUnderlying hsource type) (bind (unboxed d) fun _ => ?_)
      refine ite (fun _ => pure ()) fun _ => bind get fun _ => ?_
      refine ite (fun _ => seq (count _) (pure ())) fun _ => ?_
      exact bind (deciding d (verdict hp inherits hd hsource type)) conclude
    · exact pure ()

theorem settle (hp : c.program.Closed) {e : DeclId} (hd : c.program.hasDecl d = true)
    (he : c.program.hasDecl e = true) : Passes c.program (c.settle d e) :=
  settleWithin hp _ hd he

theorem decideMethod (hp : c.program.Closed) (hd : c.program.hasDecl d = true) :
    Passes c.program (c.decideMethod d) := by
  refine topmost_bind hp hd fun refined hr => lookup_bind hr fun _ _ => ?_
  refine ite (fun _ => pure ()) fun _ => ?_
  exact lookup_bind hd fun _ _ => ite (fun _ => settle hp hd hr) fun _ => modifyMarks _

theorem decideValue (hp : c.program.Closed) (hd : c.program.hasDecl d = true) :
    Passes c.program (c.decideValue d) :=
  topmost_bind hp hd fun _ hr => settle hp hd hr

theorem visitMethod (hp : c.program.Closed) (hd : c.program.hasDecl d = true) :
    Passes c.program (c.visitMethod d) :=
  seq (markErasure hd) (seq (markRaw hd) (decideMethod hp hd))

theorem visitValue (hp : c.program.Closed) (hd : c.program.hasDecl d = true) :
    Passes c.program (c.visitValue d) :=
  seq (markErasure hd) (seq (markRaw hd) (decideValue hp hd))

theorem visitVariable (hp : c.program.Closed) (hd : c.program.hasDecl d = true) :
    Passes c.program (c.visitVariable d) :=
  seq (count _) (seq (markErasure hd) (seq (markRaw hd) (settle hp hd hd)))

theorem stripUnderlying (head : DeclareHead) (body : Body) :
    Passes p (c.stripUnderlying head body) := by
  unfold Context.stripUnderlying
  split
  · refine ite (fun _ => ?_) fun _ => pure ()
    split
    · exact ite (fun _ => modifyMarks _) fun _ => pure ()
    · exact pure ()
  · exact pure ()

end Table

end Passes

end Decide

/-! ## The acts of closed parts -/

/-- What the act is about is in the table; a parameter is a parameter of something. -/
def Act.Safe (p : Program) : Act → Prop
  | check _ d | force _ d | literal _ d | iterated _ d | variable_ d | value d | method d | decide d
  | typeParameter _ d => p.hasDecl d = true
  | parameter d =>
    ∃ x, p.decl? d = some x ∧ x.isParameter = true ∧ x.scope.declaration?.isSome = true
  | count | strip _ _ => True

theorem Act.Safe.passes {c : Context} {a : Act} (hp : c.program.Closed) (h : a.Safe c.program) :
    Decide.Passes c.program (a.run c) := by
  cases a with
  | check l d => exact .lookupAt_bind h fun _ _ => .pure ()
  | count => exact .count _
  | strip head body => exact .stripUnderlying head body
  | force l d => exact .lookupAt_bind h fun _ _ => .force d
  | literal l d => exact .lookupAt_bind h fun _ _ => .seq (.count _) (.force d)
  | iterated l d => exact .lookupAt_bind h fun _ _ => .seq (.force d) (.visitVariable hp h)
  | variable_ d => exact .visitVariable hp h
  | value d => exact .visitValue hp h
  | method d => exact .visitMethod hp h
  | decide d => exact .decideValue hp h
  | typeParameter l d =>
    exact .lookupAt_bind h fun _ _ =>
      .ite (fun _ => .bind (.askBounds _) fun _ => .pure ()) fun _ => .pure ()
  | parameter d =>
    obtain ⟨x, hx, hpar, ho⟩ := h
    obtain ⟨owner, ho⟩ := Option.isSome_iff_exists.mp ho
    rw [c.run_parameter hx]
    exact .ofExcept_bind (Program.parameterized_of_scope hpar ho) (.pure ())

namespace Part.Closed
variable {p : Program} {q : Part}

theorem parameter_safe {r : Parameter} (h : Closed p (.parameter r)) :
    (Act.parameter r.declaration).Safe p := by
  obtain ⟨x, hx⟩ := Program.exists_decl? (h.mentioned r.declaration (List.mem_singleton_self _))
  exact ⟨x, hx, h.parameter r rfl x hx⟩

theorem declare_safe {c : Context} {head : DeclareHead} {lists : List (List Parameter)}
    {body : Body} (h : Closed c.program (.stmt (.declare head lists body))) :
    ∀ a ∈ c.declareActs head body ++ c.declaredActs head, a.Safe c.program := by
  have hd : c.program.hasDecl head.declaration = true :=
    h.mentioned _ (List.mem_append_left _ List.mem_cons_self)
  have htypes (e : DeclId) (he : e ∈ head.typeParameters) : c.program.hasDecl e = true :=
    h.mentioned e (List.mem_append_left _ (List.mem_cons_of_mem _ he))
  obtain ⟨x, hx⟩ := Program.exists_decl? hd
  have hsetter (e : DeclId) (hk : x.kind = .setter e) : c.program.hasDecl e = true := by
    refine h.mentioned e (List.mem_append_right _ (Option.mem_toList.mpr ?_))
    simp [hx, Declaration.setterParameter?, hk]
  rw [List.forall_mem_append]
  constructor
  · unfold Target.declareActs
    split <;> simp [Act.Safe, hd]
  · unfold Target.declaredActs
    rw [List.forall_mem_append, List.forall_mem_map, List.forall_mem_cons]
    refine ⟨htypes, trivial, ?_⟩
    rw [hx, Option.map_some]
    cases hk : x.kind with
    | value | method | typeParameter => simp [Act.Safe, hd]
    | setter e => simp [Act.Safe, hsetter e hk]
    | _ => exact List.forall_mem_nil _

theorem specify_safe {c : Context} {target value : Expr} {isLazy : Bool}
    (h : Closed c.program (.stmt (.specify target value isLazy))) :
    ∀ a ∈ (Part.stmt (.specify target value isLazy)).acts c, a.Safe c.program := by
  simp only [Part.acts]
  cases hd : target.referenced with
  | none => exact List.forall_mem_nil _
  | some d =>
    have hmem : c.program.hasDecl d = true := h.mentioned d (Option.mem_toList.mpr hd)
    rw [List.forall_mem_cons]
    refine ⟨hmem, ?_⟩
    obtain ⟨x, hx⟩ := Program.exists_decl? hmem
    rw [Target.specifiedActs, hx, Option.map_some]
    cases x.kind with
    | value | method => simp [Act.Safe, hmem]
    | _ => exact List.forall_mem_nil _

/-- The acts that a closed part calls for are about declarations in the table. -/
theorem safe {c : Context} (h : q.Closed c.program) : ∀ a ∈ q.acts c, a.Safe c.program := by
  have hd := h.mentioned
  cases q with
  | expr e =>
    obtain ⟨n, form⟩ := e
    cases form with
    | function => exact List.forall_mem_map.mpr hd
    | _ => exact List.forall_mem_nil _
  | argument a =>
    cases a with
    | specified | sequenced => exact List.forall_mem_nil _
    | _ =>
      have hd := hd _ (List.mem_singleton_self _)
      simp [Part.acts, Act.Safe, hd]
  | condition k =>
    obtain ⟨test, e⟩ := k
    exact List.forall_mem_map.mpr hd
  | binding b =>
    obtain ⟨d, e⟩ := b
    have hd := hd d (List.mem_singleton_self d)
    simp [Part.acts, Act.Safe, hd]
  | clause k =>
    cases k with
    | forIn | onlyIf => exact List.forall_mem_map.mpr hd
    | yield => exact List.forall_mem_nil _
  | parameter r =>
    have hr := h.parameter_safe
    have hd := hd r.declaration (List.mem_singleton_self _)
    cases r with
    | value d => exact List.forall_mem_cons.mpr ⟨hd, by simpa [Act.Safe] using ⟨hr, hd⟩⟩
    | functional d =>
      simp only [Part.acts]
      split
      · simpa [Act.Safe, Parameter.declaration] using hd
      · simpa [Act.Safe, Parameter.declaration] using ⟨hd, hr, hd⟩
  | stmt s =>
    cases s with
    | declare => exact h.declare_safe
    | specify => exact h.specify_safe
    | forIn => exact List.forall_mem_map.mpr hd
    | _ => exact List.forall_mem_nil _

end Part.Closed

namespace Context
open Decide
variable {c : Context}

/-- What literals stand for while the step is taken is in the table as well. -/
theorem step_passes {s : Step} (hm : ∀ pair ∈ s.standing, c.program.hasDecl pair.2 = true)
    (h : Passes c.program (s.act.run c)) : Passes c.program (s.run c) := by
  intro t ht
  have hs : Rewrites.Within c.program ⟨s.standing ++ t.rewrites.entries⟩ := by
    intro pair hpair
    rcases List.mem_append.mp hpair with hpair | hpair
    · exact hm pair hpair
    · exact ht pair hpair
  obtain ⟨hok, hr⟩ := h { t with rewrites := ⟨s.standing ++ t.rewrites.entries⟩ } hs
  refine ⟨hok, ?_⟩
  simp only [Step.run, after_between, hr, List.drop_left]

theorem decideUnit_passes (hp : c.program.Closed) {u : SourceUnit} (hu : u.Closed c.program) :
    Passes c.program (c.decideUnit u) := by
  rw [decideUnit_eq]
  have hcovers := c.itinerary_covers u
  refine .forM fun s hs => step_passes (fun pair hpair => ?_) ?_
  · obtain ⟨e, he, hr⟩ := hcovers.methods s hs pair hpair
    exact (hu _ he).mentioned _ (Part.mentioned_of_referenced hr)
  · obtain ⟨q, hq, ha⟩ := (hcovers.acts s.act).mp ⟨s, hs, rfl⟩
    exact ((hu q hq).safe s.act ha).passes hp

theorem decideUnits_ok (hp : c.program.Closed) (m : Marks) {units : List SourceUnit}
    (hu : ∀ u ∈ units, u.Closed c.program) : (c.decideUnits m units).1 = .ok () := by
  have hpass : Passes c.program (units.forM c.decideUnit) :=
    .forM fun u hmem => decideUnit_passes hp (hu u hmem)
  obtain ⟨⟨⟨⟩, hok⟩, -⟩ := hpass { marks := m } nofun
  exact hok

end Context

/-! ## Rules that do not fail -/

/-- The declarations that the rule of a form looks up by what stands in the tree. -/
def Form.lookups : Form → List DeclId
  | .base d _ | .member _ d _ _ => d.toList
  | .call primary _ | .callNamed primary _ => primary.unwrap.referenced.toList
  | _ => []

theorem Form.lookups_bare (form : Form) : (Bare.form form).lookups = form.lookups := by
  cases form with
  | call primary | callNamed primary =>
    change (Bare.expr primary).unwrap.referenced.toList = primary.unwrap.referenced.toList
    rw [Bare.unwrap_expr, Bare.referenced_expr]
  | _ => rfl

theorem Part.lookups_mentioned {p : Program} {n : Node} {form : Form} {d : DeclId}
    (h : d ∈ form.lookups) : d ∈ (Part.expr (.mk n form)).mentioned p := by
  cases form with
  | base | member | call | callNamed => exact h
  | _ => cases h

namespace View
variable {v : View} {l : Location} {primary : Expr}

theorem callFlags_ok (h : ∀ d ∈ primary.unwrap.referenced, v.program.hasDecl d = true)
    (es : List Expr) : ∃ flags, v.callFlags l primary es = .ok flags := by
  cases hd : primary.unwrap.referenced with
  | none =>
    simp only [callFlags, hd]
    exact ⟨_, rfl⟩
  | some d =>
    obtain ⟨x, hx⟩ := Program.exists_decl? (h d hd)
    simp only [callFlags, hd, Program.decl_eq_ok_iff.mpr hx, bind, Except.bind]
    split
    · exact ⟨_, rfl⟩
    · split <;> exact ⟨_, rfl⟩

theorem indexFinding_ok (name : String) : ∃ found, v.indexFinding l primary name = .ok found := by
  unfold indexFinding
  split
  · exact ⟨_, rfl⟩
  · next d hd =>
    obtain ⟨owner, -, hd⟩ := Option.bind_eq_some_iff.mp hd
    obtain ⟨x, hx⟩ := Program.exists_decl? (Program.hasDecl_of_accessor? hd)
    simp only [Program.decl_eq_ok_iff.mpr hx, bind, Except.bind]
    exact ⟨_, rfl⟩

theorem memberFinding_ok {d : DeclId} (hd : v.program.hasDecl d = true) (op : MemberOperator) :
    ∃ found, v.memberFinding l primary d op = .ok found := by
  obtain ⟨x, hx⟩ := Program.exists_decl? hd
  unfold memberFinding
  rw [Program.decl_eq_ok_iff.mpr hx]
  cases op <;> exact ⟨_, rfl⟩

theorem rule_ok (n : Node) {form : Form} (h : ∀ d ∈ form.lookups, v.program.hasDecl d = true) :
    ∃ found, v.rule n form = .ok found := by
  cases form with
  | base d ts =>
    cases d with
    | none => exact ⟨_, rfl⟩
    | some d =>
      obtain ⟨x, hx⟩ := Program.exists_decl? (h d (List.mem_singleton_self d))
      simp only [rule, baseFlags, Program.decl_eq_ok_iff.mpr hx, bind, Except.bind]
      exact ⟨_, rfl⟩
  | member primary d op ts =>
    cases d with
    | none => exact ⟨_, rfl⟩
    | some d => exact memberFinding_ok (h d (List.mem_singleton_self d)) op
  | call primary es =>
    obtain ⟨flags, hflags⟩ := callFlags_ok (l := n.location)
      (fun d hd => h d (Option.mem_toList.mpr hd)) es
    exact ⟨v.plain flags, by rw [rule, hflags]; rfl⟩
  | callNamed primary as =>
    obtain ⟨flags, hflags⟩ := callFlags_ok (l := n.location)
      (fun d hd => h d (Option.mem_toList.mpr hd)) []
    exact ⟨v.plain flags, by rw [rule, hflags]; rfl⟩
  | element primary i | span primary first last => exact indexFinding_ok _
  | typeLiteral target => cases target <;> exact ⟨_, rfl⟩
  | _ => exact ⟨_, rfl⟩

end View

theorem Target.find_ok {t : Target} {n : Node} {form : Form}
    (hn : ∀ a ∈ n.type, t.program.hasType a = true)
    (h : ∀ d ∈ form.lookups, t.program.hasDecl d = true) (m : Marks) (scopes : List DeclId) :
    ∃ found, t.find m scopes n form = .ok found := by
  unfold find
  rw [checkType_ok hn]
  exact View.rule_ok (v := { t with marks := m, scopes }) n h

theorem Chore.passes {t : Target} {q : Part} {u : Visitor Unit} (h : Chore t q u)
    (hq : q.Closed t.program) : Visitor.Passes u := by
  cases h with
  | forces l hd => exact .forces l fun d hdd => hq.forced d (hd d hdd)
  | receiver => exact .boxReceiver _
  | @narrow e e' h =>
    have htype : e'.type = e.type := by rw [← Bare.type_expr, h, Bare.type_expr]
    refine .narrow fun d hd => ?_
    rw [← Bare.referenced_expr, h, Bare.referenced_expr] at hd
    obtain ⟨x, hx⟩ := Program.exists_decl? (hq.mentioned d (Part.mentioned_of_referenced hd))
    refine ⟨x, hx, fun _ => Target.checkType_ok fun a ha => hq.type e rfl a ?_⟩
    rw [← htype]
    exact ha
  | check => exact .checkAt _ (hq.mentioned _ (List.mem_append_left _ List.mem_cons_self))

theorem Visits.passes {t : Target} {α : Type} {L : Layout α} {ps : List Part} {a : α}
    {visit : α → Visitor α} (h : Visits t L ps visit a) (hps : ∀ q ∈ ps, q.Closed t.program)
    {s : Visit} (hf : s.failure = none) : (visit a s).2.failure = none := by
  induction h generalizing s with
  | done _ hv => rwa [hv]
  | pair _ _ ihx ihy =>
    rw [List.forall_mem_append] at hps
    exact ihy hps.2 (ihx hps.1 hf)
  | build _ _ hv _ _ ih =>
    rw [hv _ rfl]
    exact ih hps hf
  | @finish _ _ _ a visit _ n h mk hv _ hb ih =>
    rw [List.forall_mem_cons] at hps
    rw [hv n a rfl]
    have hlookups : (mk (visit a s).1).lookups = (mk a).lookups := by
      rw [← Form.lookups_bare, hb, h.bare, ← hb, Form.lookups_bare]
    obtain ⟨found, hfound⟩ := Target.find_ok (t := t) (n := n)
      (hps.1.type _ rfl) (fun d hd => hps.1.mentioned d (Part.lookups_mentioned (hlookups ▸ hd)))
      (visit a s).2.marks (visit a s).2.scopes
    have hf' := ih hps.2 hf
    exact (congrArg (·.2.failure) (Target.finish_of_ok hf' hfound)).trans hf'
  | inside d _ ih => exact ih hps (s := { s with scopes := d :: s.scopes }) hf
  | note _ _ _ ih => exact ih (List.forall_mem_cons.mp hps).2 hf
  | chore h u hu ih =>
    obtain ⟨q, hq, hu⟩ := hu _ (h.bare s)
    exact hu.passes (hps q hq) _ (ih hps hf)
  | @iteration _ _ _ _ _ _ a _ visit _ ds l hd _ _ ihx ihy =>
    rw [List.forall_mem_append] at hps
    obtain ⟨q, hq, hd⟩ := hd
    have hpass : Visitor.Passes (ds.forM (t.forceAt (l (visit a s).1))) :=
      .forces _ fun d hdd => (hps.1 q hq).forced d (hd d hdd)
    have hf' := hpass _ (ihx hps.1 hf)
    generalize hs' : (ds.forM (t.forceAt (l (visit a s).1)) (visit a s).2).2 = s' at hf'
    have := ihy hps.2 (s := { s' with bound := ds ++ s'.bound }) hf'
    rwa [← hs'] at this

namespace Target

/-- A run over closed units of a closed program ends without a failure, whatever the policy, the
marks and the settings are. It visits every expression of the units. -/
theorem run_ok (t : Target) (settings : Settings) (m : Marks) (units : List SourceUnit)
    (hp : t.program.Closed) (hu : ∀ u ∈ units, u.Closed t.program) :
    let out := t.run settings m units
    ∃ summary, out.result = .ok summary ∧
      out.units.map SourceUnit.bare = units.map SourceUnit.bare ∧
      summary.stats.expressions.visited = (out.units.flatMap SourceUnit.expressions).length := by
  intro out
  have hdecided := Context.decideUnits_ok (c := { t with limit := settings.maxDepth }) hp m hu
  have hparts : ∀ q ∈ units.flatMap SourceUnit.parts, q.Closed t.program := by
    intro q hq
    obtain ⟨u, hmem, hq⟩ := List.mem_flatMap.mp hq
    exact hu u hmem q hq
  have hvisited (isRecording : Bool) (m : Marks) :
      (t.visitUnits isRecording m units).2.failure = none := (t.mapM_visits units).passes hparts rfl
  obtain ⟨report, hrun⟩ := run_of_ok hdecided (hvisited _ _)
  dsimp only [out]
  rw [hrun]
  exact ⟨_, rfl, (t.mapM_visits units).bare _,
    (visitUnits_counted (hvisited _ _)).visited.trans (Nat.zero_add _)⟩

end Target

/-- A method (2) of a class (1) with a parameter (3), and a function literal (4) with a parameter
(5) that specifies the method. -/
def Program.specified : Program where
  decls := #[
    { name := some ⟨0⟩, kind := .classType {}, scope := .unit },
    { name := some ⟨1⟩, kind := .classType { members := [⟨2⟩] }, scope := .unit },
    { name := some ⟨2⟩, kind := .method { lists := [[⟨3⟩]] }, scope := .declaration ⟨1⟩,
      type := some ⟨0⟩, modifiers := ⟨[.shared, .shortcutRefinement]⟩ },
    { name := some ⟨3⟩, kind := .value, scope := .declaration ⟨2⟩, type := some ⟨0⟩,
      modifiers := ⟨[.parameter]⟩ },
    { name := none, kind := .method { lists := [[⟨5⟩]] }, scope := .specification ⟨2⟩,
      type := some ⟨0⟩ },
    { name := some ⟨3⟩, kind := .value, scope := .declaration ⟨4⟩, type := some ⟨0⟩,
      modifiers := ⟨[.parameter]⟩ }]
  types := #[.nominal ⟨0⟩ []]
  core := ⟨⟨6⟩, ⟨6⟩, ⟨6⟩, ⟨6⟩, ⟨6⟩, ⟨6⟩, ⟨6⟩, ⟨0⟩, ⟨6⟩, ⟨6⟩, ⟨6⟩, ⟨6⟩, ⟨6⟩, ⟨6⟩, ⟨6⟩⟩

/-- The specification of the method by the literal, which returns its parameter. -/
def SourceUnit.specification : SourceUnit where
  name := "specification"
  statements :=
    let node (id : Nat) : Node := { id := ⟨id⟩, type := some ⟨0⟩, location := .unknown }
    let result : Expr := .mk (node 2) (.base (some ⟨5⟩) [])
    [.specify (.mk (node 0) (.base (some ⟨2⟩) []))
      (.mk (node 1) (.function (some ⟨4⟩) [[.value ⟨5⟩ none]] (.value result))) false]

namespace Target

/-- While the literal stands for the method, its parameter is decided as that of the method is. -/
theorem run_ok_specification :
    let out := run ⟨.specified, .standard⟩ {} {} [.specification]
    Program.specified.Closed ∧ SourceUnit.specification.Closed .specified ∧
      (∃ summary, out.result = .ok summary) ∧
      out.marks.unboxed ⟨5⟩ = some true ∧ out.marks.unboxed ⟨3⟩ = some true := by
  have hp : Program.specified.Closed := by decide +kernel
  have hu : SourceUnit.specification.Closed .specified := by decide +kernel
  obtain ⟨summary, hok, -⟩ := run_ok ⟨.specified, .standard⟩ {} {} [.specification] hp
    (List.forall_mem_singleton.mpr hu)
  exact ⟨hp, hu, ⟨summary, hok⟩, by decide +kernel, by decide +kernel⟩

end Target

end Unbox
