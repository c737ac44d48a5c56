import Unbox.Proofs.Once
import Unbox.Proofs.Places

/-!
# Specifications of inherited methods by function literals

While the specification of a method by a function literal is walked, the literal stands for the method, so
the parameters of the literal stand for those of the method that is refined in the end.

* `Place d lists i j` : `d` stands first at place `j` of list `i`;
* `Context.Shortcut r m l f` : the literal `l` specifies the method `m`, whose topmost declaration is `f`
  then;
* `Context.Shortcut.topmost_eq` : a parameter of the literal has the same topmost declaration as the
  parameter of `f` at its place;
* `Context.exists_turn_of_specification` : every parameter of the literal has its turn in the specification;
* `Context.alike_of_turnUnder` : one that is undecided when its turn comes agrees with that topmost
  declaration once the turn is over;
* `Context.specification_follows` : and still does at the end of the statement; outside the statement the
  literal and its parameters stand for themselves;
* `Context.specification_strays` : two parameters that do not follow, one that is decided before its turn
  and one that stays undecided.
-/

namespace Unbox

/-- `d` stands first at place `j` of list `i`. -/
inductive Place (d : DeclId) : List (List DeclId) → Nat → Nat → Prop where
  | here {as : List DeclId} {rest : List (List DeclId)} {j : Nat} (h : as.idxOf? d = some j) :
    Place d (as :: rest) 0 j
  | later {as : List DeclId} {rest : List (List DeclId)} {i j : Nat} (h : as.idxOf? d = none)
    (hr : Place d rest i j) : Place d (as :: rest) (i + 1) j

/-- The declaration at place `j` of list `i`. -/
def placed? (lists : List (List DeclId)) (i j : Nat) : Option DeclId := lists[i]?.bind (·[j]?)

namespace Place
variable {d : DeclId} {ass bss : List (List DeclId)} {i j : Nat}

theorem placed? (h : Place d ass i j) : placed? ass i j = some d := by
  induction h with
  | @here as _ j h =>
    obtain ⟨hj, hd, -⟩ := List.idxOf?_eq_some_iff.mp h
    simp [Unbox.placed?, hj, hd]
  | later _ _ ih => simpa [Unbox.placed?] using ih

/-- In lists of the same shape something stands at the same place, and it is what the search for a
counterpart finds. -/
theorem counterpart (h : Place d ass i j) (hs : SameShape ass bss) :
    ∃ q, Unbox.placed? bss i j = some q ∧ Program.counterpart d ass bss = .found q := by
  induction h generalizing bss with
  | @here as rest j h =>
    cases bss with
    | nil => cases hs
    | cons bs bss =>
      simp only [SameShape, List.map_cons, List.cons.injEq] at hs
      obtain ⟨hj, -⟩ := List.idxOf?_eq_some_iff.mp h
      have hj' : j < bs.length := hs.1 ▸ hj
      refine ⟨bs[j], by simp [Unbox.placed?, hj'], ?_⟩
      simp [Program.counterpart, hs.1, h, hj']
  | @later as rest i j h _ ih =>
    cases bss with
    | nil => cases hs
    | cons bs bss =>
      simp only [SameShape, List.map_cons, List.cons.injEq] at hs
      obtain ⟨q, hq, hc⟩ := ih hs.2
      refine ⟨q, by simpa [Unbox.placed?] using hq, ?_⟩
      simp [Program.counterpart, hs.1, h, hc]

end Place

namespace Context
open Decide

/-- The literal `l` specifies the method `m`, which refines another declaration; `f` is the topmost
declaration of `m` while `l` stands for `m`, and has parameter lists of the same shape as `l`. -/
structure Shortcut (c : Context) (r : Rewrites) (m l f : DeclId) (y z : Declaration) : Prop where
  method : ∃ x e, c.program.decl? m = some x ∧ x.isMethod = true ∧ x.isParameter = false ∧
    x.isShortcutRefinement = true ∧ x.refined = some e ∧ e ≠ m
  literal : c.program.decl? l = some y
  isMethod : y.isMethod = true
  isParameter : y.isParameter = false
  scope : y.scope = .specification m
  unrefined : y.refined = none
  topmost : c.program.resolved c.policy (r.push l m) (max c.limit 1) [] m = some f
  refined : c.program.decl? f = some z
  functional : z.isFunctional = true
  shape : SameShape y.parameterLists z.parameterLists

namespace Shortcut
variable {c : Context} {r : Rewrites} {m l f d q : DeclId} {x y z : Declaration} {type : TypeId}
  {i j : Nat}

/-! ## What the parameters of the literal stand for -/

theorem refinedOther? (h : c.Shortcut r m l f y z) :
    ∃ x e, c.program.decl? m = some x ∧ x.isParameter = false ∧ x.refined = some e ∧ e ≠ m ∧
      c.program.refinedOther? m = some e := by
  obtain ⟨x, e, hx, -, hp, -, he, hne⟩ := h.method
  exact ⟨x, e, hx, hp, he, hne, by simp [Program.refinedOther?, hx, he, hne]⟩

theorem shortcut (h : c.Shortcut r m l f y z) :
    c.program.shortcut (r.push l m) l y = some m := by
  obtain ⟨x, e, hx, hm, -, hs, -⟩ := h.method
  simp [Program.shortcut, Rewrites.isEmpty, Rewrites.push, Rewrites.lookup, h.isMethod, h.unrefined,
    h.scope, hx, hm, hs]

/-- The literal goes the way of the method, so if it is resolved at all it is resolved alike. -/
theorem topmost_literal {g : DeclId} (h : c.Shortcut r m l f y z)
    (hg : c.program.resolved c.policy (r.push l m) (max c.limit 1) [] l = some g) : g = f := by
  obtain ⟨x, e, hx, hp, he, hne, ho⟩ := h.refinedOther?
  obtain ⟨room, hroom⟩ : ∃ room, max c.limit 1 = room + 1 := ⟨max c.limit 1 - 1, by omega⟩
  have hf := h.topmost
  rw [hroom, Program.resolved_of_not_parameter h.literal h.isParameter List.not_mem_nil, h.shortcut,
    Option.getD_some, Program.through_of_some ho] at hg
  rw [hroom, Program.resolved_of_not_parameter hx hp List.not_mem_nil,
    Program.shortcut_of_refined he hne, Option.getD_none, Program.through_of_some ho] at hf
  have hg' := Program.resolved_mono hg (le_refl room) (List.nil_subset _)
  have hf' := Program.resolved_mono hf (le_refl room) (List.nil_subset _)
  exact Option.some.inj (hg'.symm.trans hf')

/-- A parameter of the literal that is resolved at all has the same topmost declaration as the parameter
at its place in the method refined in the end. -/
theorem topmost_eq (h : c.Shortcut r m l f y z) (hd : c.ParameterOf l d y x type)
    (hplace : Place d y.parameterLists i j) (hq : placed? z.parameterLists i j = some q)
    (hr : c.program.resolved c.policy (r.push l m) (max c.limit 1) [] d ≠ none) :
    c.topUnder (r.push l m) d = c.topUnder (r.push l m) q := by
  obtain ⟨t, ht⟩ := Option.ne_none_iff_exists'.mp hr
  obtain ⟨hl, hs⟩ := Program.exists_of_resolved_asked hd.parameter (hd.askedMethod? (.inl h.isParameter)) ht
  rw [h.topmost_literal hl] at hs
  by_cases hfl : f = l
  · subst hfl
    cases h.literal.symm.trans h.refined
    obtain rfl : d = q := Option.some.inj (hplace.placed?.symm.trans hq)
    rfl
  · obtain ⟨q', hq', hc⟩ := hplace.counterpart h.shape
    obtain rfl : q' = q := Option.some.inj (hq'.symm.trans hq)
    have hlen : y.parameterLists.length = z.parameterLists.length := by
      simpa using congrArg List.length h.shape
    have hlike : c.program.methodParameter d l f = .like q' := by
      simp [Program.methodParameter, hfl, h.literal, h.refined, h.functional, hlen, hc]
    rw [hlike] at hs
    exact (Program.topmost_of_resolved ht).trans (Program.topmost_of_resolved hs).symm

theorem topmost_outside (h : c.Shortcut r m l f y z) : c.topUnder {} l = l := by
  obtain ⟨room, hroom⟩ : ∃ room, max c.limit 1 = room + 1 := ⟨max c.limit 1 - 1, by omega⟩
  have ho : c.program.refinedOther? l = none := by
    simp [Program.refinedOther?, h.literal, h.unrefined]
  refine Program.topmost_of_resolved ?_
  rw [hroom, Program.resolved_of_not_parameter h.literal h.isParameter List.not_mem_nil,
    Program.shortcut_of_lookup rfl, Option.getD_none, Program.through_of_none ho]
  rfl

end Shortcut

/-! ## The turn of a parameter -/

section Turn
variable {c : Context} {s : Decisions} {m l f d q : DeclId} {x y z : Declaration} {type : TypeId}
  {target value : Expr} {n : Node} {lists : List (List Parameter)} {body : Body}

/-- The step by which the parameter `d` is decided for its own sake, while `l` stands for `m`. -/
def turnUnder (l m d : DeclId) : Step := .under l m (.plain (.value d))

/-- A value parameter that is visited undecided has the flag of its topmost declaration then. -/
theorem unboxed_of_visitValue (hd : c.ParameterOf f d y x type) (hp : s.pending = [])
    (hu : s.marks.unboxed d = none) (hok : result (c.visitValue d) s = .ok ()) :
    (after (c.visitValue d) s).marks.unboxed d =
      (after (c.visitValue d) s).marks.unboxed (c.topUnder s.rewrites d) := by
  by_cases htop : c.topUnder s.rewrites d = d
  · rw [htop]
  have noted : Follows (Write c.toTarget (fun _ => False) fun _ => False)
      (c.markErasure d >>= fun _ => c.markRaw d) := .seq (.markErasure d) (.markRaw d)
  have hassoc : c.visitValue d =
      (c.markErasure d >>= fun _ => c.markRaw d) >>= fun _ => c.decideValue d :=
    (bind_assoc _ _ _).symm
  rw [hassoc] at hok ⊢
  obtain ⟨_, hnote, hok⟩ := result_bind_eq_ok.mp hok
  rw [after_bind_of_ok hnote]
  obtain ⟨-, hr, hp'⟩ := noted s
  have hu' : (after (c.markErasure d >>= fun _ => c.markRaw d) s).marks.unboxed d = none :=
    (noted s).preserves (P := fun m => m.unboxed d = none)
      (fun _ _ hw hm => (hw.unboxed_of_untouched id id).trans hm) hu
  generalize after (c.markErasure d >>= fun _ => c.markRaw d) s = t at hr hp' hu' hok
  rw [decideValue, result_topmost_bind] at hok
  rw [decideValue, after_topmost_bind, ← hr]
  have hl : c.link? t.rewrites (c.topUnder t.rewrites d) d x = some (c.topUnder t.rewrites d) :=
    if_pos (hr ▸ htop)
  exact unboxed_of_link (hp'.trans hp) hd.parameter hd.typed hu' hd.isCallable hl hok

theorem perform_singleton (st : Step) : c.perform [st] = st.run c := by
  rw [perform_cons, perform_nil]
  exact bind_pure_unit

/-- Parentheses make no difference for what is done. -/
theorem steps_unwrap (e : Expr) : c.steps e.unwrap = c.steps e := by
  fun_induction Expr.unwrap e with
  | case1 n e ih => exact ih
  | case2 => rfl

theorem mem_stepsParameters {ps : List Parameter} {p : Parameter} (hp : p ∈ ps)
    (hd : p.declaration = d) (hm : c.policy.createsMethod c.program d = false) :
    Step.plain (.value d) ∈ c.stepsParameters ps := by
  induction ps with
  | nil => cases hp
  | cons p' ps ih =>
    rcases List.mem_cons.mp hp with rfl | hrest
    · cases p with
      | value e initial =>
        obtain rfl : e = d := hd
        simp [Target.stepsParameters]
      | functional e initial inner =>
        obtain rfl : e = d := hd
        simp [Target.stepsParameters, hm]
    · cases p' with
      | value e initial => simp [Target.stepsParameters, ih hrest]
      | functional e initial inner => simp [Target.stepsParameters, ih hrest]

theorem mem_stepsLists {ps : List Parameter} {p : Parameter} (hps : ps ∈ lists) (hp : p ∈ ps)
    (hd : p.declaration = d) (hm : c.policy.createsMethod c.program d = false) :
    Step.plain (.value d) ∈ c.stepsLists lists := by
  induction lists with
  | nil => cases hps
  | cons qs lists ih =>
    rw [Target.stepsLists, List.mem_append]
    rcases List.mem_cons.mp hps with rfl | hps
    · exact .inl (mem_stepsParameters hp hd hm)
    · exact .inr (ih hps)

/-- In the specification of a method by a literal, the literal stands for the method in every step of the
target and of the literal. -/
theorem stepsStmt_of_shortcut (hx : (c.program.decl? m).any Declaration.isMethod = true)
    (ht : target.referenced = some m) (hv : value.unwrap = .mk n (.function (some l) lists body)) :
    c.stepsStmt (.specify target value false) =
      .plain (.check target.location m) :: (c.steps target ++ c.steps value).map (.under l m) ++
        (c.specifiedActs m).map .plain := by
  have hs : shortcutOf m true false value = some (l, m) := by simp [shortcutOf, hv]
  simp only [Target.stepsStmt, ht, hx, hs]

/-- A parameter that the literal lists has its turn. -/
theorem exists_turn_of_specification (hx : (c.program.decl? m).any Declaration.isMethod = true)
    (ht : target.referenced = some m) (hv : value.unwrap = .mk n (.function (some l) lists body))
    (hnode : ∃ ps ∈ lists, ∃ p ∈ ps, p.declaration = d)
    (hm : c.policy.createsMethod c.program d = false) :
    ∃ before rest, c.stepsStmt (.specify target value false) = before ++ turnUnder l m d :: rest := by
  obtain ⟨ps, hps, p, hp, hd⟩ := hnode
  have hmem : Step.plain (.value d) ∈ c.steps value := by
    rw [← steps_unwrap, hv, Target.steps]
    exact List.mem_append_left _ (List.mem_append_left _ (mem_stepsLists hps hp hd hm))
  refine List.append_of_mem ?_
  rw [stepsStmt_of_shortcut hx ht hv]
  refine List.mem_append_left _ (List.mem_cons_of_mem _ ?_)
  exact List.mem_map_of_mem (List.mem_append_right _ hmem)

/-- In its turn the parameter is visited while the literal stands for the method. -/
theorem turnUnder_run (s : Decisions) :
    let inside : Decisions := { s with rewrites := s.rewrites.push l m }
    result ((turnUnder l m d).run c) s = result (c.visitValue d) inside ∧
      (after ((turnUnder l m d).run c) s).marks = (after (c.visitValue d) inside).marks :=
  ⟨rfl, rfl⟩

/-- One that is undecided when its turn comes agrees with its topmost declaration once the turn is
over. -/
theorem alike_of_turnUnder {before : List Step} (hd : c.ParameterOf f d y x type)
    (hp : s.pending = []) (hu : (after (c.perform before) s).marks.unboxed d = none)
    (hok : result (c.perform (before ++ [turnUnder l m d])) s = .ok ()) :
    let turned := (after (c.perform (before ++ [turnUnder l m d])) s).marks
    turned.unboxed d = turned.unboxed (c.topUnder (s.rewrites.push l m) d) := by
  have first : Follows (Write c.toTarget ⊤ ⊤) (c.perform before) :=
    .forM fun st _ => (Follows.step st).mono fun _ _ => .mono (fun _ => id) fun _ _ => trivial
  rw [perform_append, perform_singleton] at hok ⊢
  obtain ⟨⟨⟩, hbefore, hok⟩ := result_bind_eq_ok.mp hok
  rw [after_bind_of_ok hbefore]
  obtain ⟨-, hr, hp'⟩ := first s
  generalize after (c.perform before) s = t at hr hp' hu hok
  rw [(turnUnder_run t).1] at hok
  rw [(turnUnder_run t).2, ← hr]
  exact unboxed_of_visitValue (s := { t with rewrites := t.rewrites.push l m }) hd (hp'.trans hp) hu hok

/-- A step of a statement forces what the statement forces only. -/
theorem follows_of_mem_stepsStmt {stmt : Stmt} {st : Step} (hst : st ∈ c.stepsStmt stmt) :
    Follows (Write c.toTarget ⊤ (· ∈ (Part.ofStmt stmt).flatMap Part.forced)) (st.run c) := by
  refine (Follows.step st).mono fun _ _ => .mono (fun _ => id) fun e he => ?_
  obtain ⟨p, hp, ha⟩ := ((c.stepsStmt_covers stmt).acts st.act).mp ⟨st, hst, rfl⟩
  refine List.mem_flatMap.mpr ⟨p, hp, ?_⟩
  rw [← c.forced_acts]
  exact List.mem_flatMap.mpr ⟨st.act, ha, he⟩

/-- Once a parameter and its topmost declaration are decided alike they stay so to the end of the
statement, which forces neither. -/
theorem alike_at_end {stmt : Stmt} {before rest : List Step} {st : Step} {top : DeclId}
    (hsteps : c.stepsStmt stmt = before ++ st :: rest)
    (hok : result (c.walkStmt stmt) s = .ok ())
    (hd : d ∉ (Part.ofStmt stmt).flatMap Part.forced)
    (ht : top ∉ (Part.ofStmt stmt).flatMap Part.forced)
    (hne : (after (c.perform (before ++ [st])) s).marks.unboxed d ≠ none)
    (halike : (after (c.perform (before ++ [st])) s).marks.unboxed d =
      (after (c.perform (before ++ [st])) s).marks.unboxed top) :
    (after (c.walkStmt stmt) s).marks.unboxed d = (after (c.walkStmt stmt) s).marks.unboxed top := by
  have hsplit : c.walkStmt stmt = c.perform (before ++ [st]) >>= fun _ => c.perform rest := by
    rw [walkStmt_eq, hsteps, ← perform_append, List.append_assoc, List.singleton_append]
  rw [hsplit] at hok ⊢
  obtain ⟨⟨⟩, hfirst, -⟩ := result_bind_eq_ok.mp hok
  rw [after_bind_of_ok hfirst]
  obtain ⟨b, hb⟩ := Option.ne_none_iff_exists'.mp hne
  have later : Follows (Write c.toTarget ⊤ (· ∈ (Part.ofStmt stmt).flatMap Part.forced))
      (c.perform rest) := by
    refine .forM fun st' hst' => follows_of_mem_stepsStmt ?_
    rw [hsteps]
    exact List.mem_append_right before (List.mem_cons_of_mem st hst')
  obtain ⟨hd', ht'⟩ := (later _).preserves
    (P := fun m => m.unboxed d = some b ∧ m.unboxed top = some b)
    (fun _ _ hw h => ⟨hw.unboxed_of_not_forced hd h.1, hw.unboxed_of_not_forced ht h.2⟩)
    ⟨hb, halike ▸ hb⟩
  exact hd'.trans ht'.symm

/-- While a method is specified by a literal, a parameter of the literal has the same topmost declaration
as the parameter at its place in the method that is refined in the end. The parameter has its turn in the
statement. If it is undecided when a turn of it comes, it agrees with that topmost declaration when the
turn is over; and if it is decided then, it still agrees at the end of the statement, unless one of the
two is forced there. Outside the statement the literal and its parameters stand for themselves. -/
theorem specification_follows {i j : Nat} (ht : target.referenced = some m)
    (hv : value.unwrap = .mk n (.function (some l) lists body))
    (h : c.Shortcut s.rewrites m l f y z) (hd : c.ParameterOf l d y x type)
    (hplace : Place d y.parameterLists i j)
    (hnode : ∃ ps ∈ lists, ∃ p ∈ ps, p.declaration = d)
    (hm : c.policy.createsMethod c.program d = false)
    (hr : c.program.resolved c.policy (s.rewrites.push l m) (max c.limit 1) [] d ≠ none)
    (hp : s.pending = [])
    (hok : result (c.walkStmt (.specify target value false)) s = .ok ()) :
    let stmt : Stmt := .specify target value false
    let forced := (Part.ofStmt stmt).flatMap Part.forced
    let ended := (after (c.walkStmt stmt) s).marks
    (∃ q, placed? z.parameterLists i j = some q ∧
      c.topUnder (s.rewrites.push l m) d = c.topUnder (s.rewrites.push l m) q ∧
      (∃ before rest, c.stepsStmt stmt = before ++ turnUnder l m d :: rest) ∧
      ∀ before rest, c.stepsStmt stmt = before ++ turnUnder l m d :: rest →
        (after (c.perform before) s).marks.unboxed d = none →
        let turned := (after (c.perform (before ++ [turnUnder l m d])) s).marks
        let top := c.topUnder (s.rewrites.push l m) q
        turned.unboxed d = turned.unboxed top ∧
          (turned.unboxed d ≠ none → d ∉ forced → top ∉ forced →
            ended.unboxed d = ended.unboxed top)) ∧
      c.topUnder {} l = l ∧ c.topUnder {} d = d := by
  intro stmt forced ended
  obtain ⟨q, hq, -⟩ := hplace.counterpart h.shape
  have htop := h.topmost_eq hd hplace hq hr
  have hmethod : (c.program.decl? m).any Declaration.isMethod = true := by
    obtain ⟨x, e, hx, hxm, -⟩ := h.method
    rw [hx, Option.any_some, hxm]
  refine ⟨⟨q, hq, htop, exists_turn_of_specification hmethod ht hv hnode hm,
    fun before rest hsteps hu => ?_⟩, h.topmost_outside, ?_⟩
  · have hturn : result (c.perform (before ++ [turnUnder l m d])) s = .ok () := by
      have hok' := hok
      rw [walkStmt_eq, hsteps, ← List.singleton_append, ← List.append_assoc, perform_append] at hok'
      obtain ⟨⟨⟩, hturn, -⟩ := result_bind_eq_ok.mp hok'
      exact hturn
    have halike := alike_of_turnUnder hd hp hu hturn
    rw [htop] at halike
    exact ⟨halike, fun hne hfd hft => alike_at_end hsteps hok hfd hft hne halike⟩
  · exact Program.topmost_of_asked_self hd.parameter (hd.askedMethod? (.inl h.isParameter))
      h.topmost_outside

end Turn

end Context

/-! ## Parameters that do not follow -/

/-- An interface (2) with a method (3) that has a parameter of the top type (4). A class (5) specifies the
method (6) by a literal (7) with an integer parameter (8), for which a parameter (10) of a class (9) stands.
The class specifies a second method (14) by a literal (15) with an integer parameter (16); that method
refines a class (11), whose parameter (12) stands for a value without a type (13). -/
def Program.specifying : Program where
  decls := #[
    { name := some ⟨0⟩, kind := .classType {}, scope := .unit },
    { name := some ⟨1⟩, kind := .classType {}, scope := .unit },
    { name := some ⟨2⟩, kind := .interfaceType { members := [⟨3⟩] }, scope := .unit },
    { name := some ⟨3⟩, kind := .method { lists := [[⟨4⟩]] }, scope := .declaration ⟨2⟩,
      type := some ⟨1⟩, modifiers := ⟨[.shared, .formal]⟩ },
    { name := some ⟨4⟩, kind := .value, scope := .declaration ⟨3⟩, type := some ⟨0⟩,
      modifiers := ⟨[.parameter]⟩ },
    { name := some ⟨5⟩, kind := .classType { satisfied := [⟨2⟩], members := [⟨6⟩, ⟨14⟩] },
      scope := .unit },
    { name := some ⟨3⟩, kind := .method { lists := [[]] }, scope := .declaration ⟨5⟩, type := some ⟨1⟩,
      refined := some ⟨3⟩, modifiers := ⟨[.shared, .actual, .shortcutRefinement]⟩ },
    { name := none, kind := .method { lists := [[⟨8⟩]] }, scope := .specification ⟨6⟩,
      type := some ⟨1⟩ },
    { name := some ⟨6⟩, kind := .value, scope := .declaration ⟨7⟩, type := some ⟨1⟩,
      modifiers := ⟨[.parameter]⟩ },
    { name := some ⟨7⟩, kind := .classType { list := some [⟨10⟩] }, scope := .declaration ⟨7⟩ },
    { name := some ⟨6⟩, kind := .value, scope := .declaration ⟨9⟩, type := some ⟨1⟩,
      refined := some ⟨8⟩, modifiers := ⟨[.parameter]⟩ },
    { name := some ⟨8⟩, kind := .classType { list := some [⟨12⟩] }, scope := .unit },
    { name := some ⟨9⟩, kind := .value, scope := .declaration ⟨11⟩, type := some ⟨1⟩,
      refined := some ⟨13⟩, modifiers := ⟨[.parameter]⟩ },
    { name := some ⟨9⟩, kind := .value, scope := .unit },
    { name := some ⟨10⟩, kind := .method { lists := [[]] }, scope := .declaration ⟨5⟩,
      type := some ⟨1⟩, refined := some ⟨11⟩,
      modifiers := ⟨[.shared, .actual, .shortcutRefinement]⟩ },
    { name := none, kind := .method { lists := [[⟨16⟩]] }, scope := .specification ⟨14⟩,
      type := some ⟨1⟩ },
    { name := some ⟨6⟩, kind := .value, scope := .declaration ⟨15⟩, type := some ⟨1⟩,
      modifiers := ⟨[.parameter]⟩ }]
  types := #[.nominal ⟨0⟩ [], .nominal ⟨1⟩ [], .nominal ⟨2⟩ []]
  core := ⟨⟨0⟩, ⟨0⟩, ⟨0⟩, ⟨0⟩, ⟨1⟩, ⟨1⟩, ⟨1⟩, ⟨1⟩, ⟨1⟩, ⟨1⟩, ⟨1⟩, ⟨1⟩, ⟨0⟩, ⟨0⟩, ⟨0⟩⟩

/-- An expression without a type. -/
def Expr.untyped (form : Form) : Expr := .mk { id := ⟨0⟩, type := none, location := .unknown } form

namespace Stmt

/-- The specification of the method `m` by the literal `l` with the parameter `d`. -/
def specifies (m l d : DeclId) (initial : Option Expr) (body : List Stmt) : Stmt :=
  .specify (.untyped (.base (some m) []))
    (.untyped (.paren (.untyped (.function (some l) [[.value d initial]] (.block body))))) false

/-- The declaration of an entity with one value parameter. -/
def declares (d parameter : DeclId) : Stmt :=
  .declare { declaration := d, location := .unknown } [[.value parameter none]] .absent

end Stmt

namespace Context
open Decide

/-- A parameter without a default value follows the parameter of the interface's method. -/
theorem specification_follows_specifying :
    let c : Context := ⟨⟨.specifying, .standard⟩, 8⟩
    let stmt : Stmt := .specifies ⟨6⟩ ⟨7⟩ ⟨8⟩ none []
    let ended := (after (c.walkStmt stmt) { marks := {} }).marks
    (∃ y z, c.Shortcut {} ⟨6⟩ ⟨7⟩ ⟨3⟩ y z) ∧ ended.unboxed ⟨8⟩ = ended.unboxed ⟨4⟩ := by
  intro c stmt ended
  have h : c.Shortcut {} ⟨6⟩ ⟨7⟩ ⟨3⟩ _ _ :=
    ⟨⟨_, ⟨3⟩, rfl, rfl, rfl, rfl, rfl, by decide⟩, rfl, rfl, rfl, rfl, rfl, rfl, rfl, rfl, rfl⟩
  have hd : c.ParameterOf ⟨7⟩ ⟨8⟩ _ _ ⟨1⟩ := ⟨rfl, rfl, rfl, rfl, rfl, rfl⟩
  have hnode : ∃ ps ∈ [[Parameter.value ⟨8⟩ none]], ∃ p ∈ ps, p.declaration = ⟨8⟩ :=
    ⟨_, List.mem_singleton_self _, _, List.mem_singleton_self _, rfl⟩
  have hok : result (c.walkStmt stmt) { marks := {} } = .ok () := by decide +kernel
  have hr : c.program.resolved c.policy (Rewrites.push {} ⟨7⟩ ⟨6⟩) (max c.limit 1) [] ⟨8⟩ ≠ none := by
    decide +kernel
  obtain ⟨⟨q, hq, -, -, hturn⟩, -⟩ :=
    specification_follows rfl rfl h hd (.here rfl) hnode rfl hr rfl hok
  obtain rfl : ⟨4⟩ = q := Option.some.inj hq
  have htop : c.topUnder (Rewrites.push {} ⟨7⟩ ⟨6⟩) ⟨4⟩ = ⟨4⟩ := by decide +kernel
  obtain ⟨-, hended⟩ := hturn ((c.stepsStmt stmt).take 4) ((c.stepsStmt stmt).drop 5) rfl
    (by decide +kernel)
  rw [htop] at hended
  exact ⟨⟨_, _, h⟩, hended (by decide +kernel) (by decide +kernel) (by decide +kernel)⟩

/-- A parameter that a class in its default value stands for is decided before its turn, by its own type;
and one whose topmost declaration is still undecided when its turn comes stays so, although that
declaration is decided in the body. Neither agrees with its topmost declaration in the end. -/
theorem specification_strays :
    let c : Context := ⟨⟨.specifying, .standard⟩, 8⟩
    let inner : Expr := .untyped (.function none [] (.block [.declares ⟨9⟩ ⟨10⟩]))
    let first : Stmt := .specifies ⟨6⟩ ⟨7⟩ ⟨8⟩ (some inner) []
    let second : Stmt := .specifies ⟨14⟩ ⟨15⟩ ⟨16⟩ none
      [.forIn (.name ⟨13⟩) (.untyped .this) [] [], .declares ⟨11⟩ ⟨12⟩]
    let s := after (c.walkStmt (.declares ⟨3⟩ ⟨4⟩)) { marks := {} }
    let ended := (after (c.walkStmt first) s).marks
    let ended' := (after (c.walkStmt second) s).marks
    (∃ y z, c.Shortcut {} ⟨6⟩ ⟨7⟩ ⟨3⟩ y z) ∧ (∃ y z, c.Shortcut {} ⟨14⟩ ⟨15⟩ ⟨11⟩ y z) ∧
      s.marks.unboxed ⟨8⟩ = none ∧ s.marks.unboxed ⟨16⟩ = none ∧
      result (c.walkStmt first) s = .ok () ∧ result (c.walkStmt second) s = .ok () ∧
      c.topUnder (Rewrites.push {} ⟨7⟩ ⟨6⟩) ⟨8⟩ = ⟨4⟩ ∧
      ended.unboxed ⟨8⟩ = some true ∧ ended.unboxed ⟨4⟩ = some false ∧
      c.topUnder (Rewrites.push {} ⟨15⟩ ⟨14⟩) ⟨16⟩ = ⟨12⟩ ∧
      ended'.unboxed ⟨16⟩ = none ∧ ended'.unboxed ⟨12⟩ = some false := by
  refine ⟨⟨_, _, ⟨_, ⟨3⟩, rfl, rfl, rfl, rfl, rfl, by decide⟩, rfl, rfl, rfl, rfl, rfl, rfl, rfl, rfl, rfl⟩,
    ⟨_, _, ⟨_, ⟨11⟩, rfl, rfl, rfl, rfl, rfl, by decide⟩, rfl, rfl, rfl, rfl, rfl, rfl, rfl, rfl, rfl⟩, ?_⟩
  decide +kernel

end Context

end Unbox
