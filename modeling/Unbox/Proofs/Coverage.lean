import Unbox.Proofs.Itinerary

/-!
# The steps of a tree are the acts of its parts

* `Part.acts` : the acts that a part calls for, leaving out what stands in it;
* `Covers c steps parts` : the steps do what the parts call for and nothing else, and a literal
  stands for a method only if the parts force it and refer to the method;
* `Context.itinerary_covers` : the itinerary of a unit covers its parts;
* `Context.mem_forced_iff` : a unit forces a declaration exactly if a step of it does.
-/

namespace Unbox

/-- The acts that a part calls for, leaving out what stands in it. -/
def Part.acts (c : Context) : Part → List Act
  | .expr (.mk n (.function literal _ _)) => literal.toList.map (.literal n.location)
  | .expr _ => []
  | .argument (.attribute d _) => [.check .unknown d, .count, .decide d]
  | .argument (.method d _ _) => [.literal .unknown d]
  | .argument (.specified _ _) | .argument (.sequenced _) => []
  | .condition (.mk test _) => test.variable?.toList.map .variable_
  | .binding (.mk d e) => [.check e.location d, .variable_ d]
  | .clause (.forIn pattern e _) | .stmt (.forIn pattern e _ _) =>
    pattern.variables.map (.iterated e.location)
  | .clause (.onlyIf cs _) => (cs.filterMap Condition.variable?).map (.force .unknown)
  | .clause (.yield _) => []
  | .parameter (.value d _) => [.check .unknown d, .count, .parameter d, .value d]
  | .parameter (.functional d _ _) =>
    [.check .unknown d, .count] ++
      if c.policy.createsMethod c.program d then [.method d] else [.parameter d, .value d]
  | .stmt (.declare head _ body) => c.declareActs head body ++ c.declaredActs head
  | .stmt (.specify target _ _) =>
    match target.referenced with
    | some d => .check target.location d :: c.specifiedActs d
    | none => []
  | .stmt _ => []

/-- The steps do what the parts call for and nothing else; the literals that stand for methods are
forced by the parts, and the parts refer to the methods. -/
structure Covers (c : Context) (parts : List Part) (steps : List Step) : Prop where
  acts : ∀ a, (∃ s ∈ steps, s.act = a) ↔ ∃ q ∈ parts, a ∈ q.acts c
  standing : ∀ s ∈ steps, ∀ pair ∈ s.standing, pair.1 ∈ parts.flatMap Part.forced
  methods : ∀ s ∈ steps, ∀ pair ∈ s.standing, ∃ e, .expr e ∈ parts ∧ e.referenced = some pair.2

namespace Covers
variable {c : Context} {ps qs : List Part} {q : Part} {ss ts : List Step}

theorem nil : Covers c [] [] := ⟨by simp, by simp, by simp⟩

theorem append (h : Covers c ps ss) (h' : Covers c qs ts) : Covers c (ps ++ qs) (ss ++ ts) := by
  refine ⟨fun a => ?_, fun s hs pair hp => ?_, fun s hs pair hp => ?_⟩
  · simp only [List.mem_append, or_and_right, exists_or, h.acts, h'.acts]
  · rw [List.flatMap_append, List.mem_append]
    rcases List.mem_append.mp hs with hs | hs
    · exact .inl (h.standing s hs pair hp)
    · exact .inr (h'.standing s hs pair hp)
  · rcases List.mem_append.mp hs with hs | hs
    · obtain ⟨e, he, hr⟩ := h.methods s hs pair hp
      exact ⟨e, List.mem_append_left qs he, hr⟩
    · obtain ⟨e, he, hr⟩ := h'.methods s hs pair hp
      exact ⟨e, List.mem_append_right ps he, hr⟩

/-- A part with acts of its own among the steps of what stands in it. -/
theorem own (h : Covers c ps ss) (own : ∀ a ∈ q.acts c, Step.plain a ∈ ts)
    (rest : ∀ s ∈ ss, s ∈ ts) (only : ∀ s ∈ ts, s ∈ ss ∨ ∃ a ∈ q.acts c, s = .plain a) :
    Covers c (q :: ps) ts := by
  refine ⟨fun a => ⟨?_, ?_⟩, fun s hs pair hp => ?_, fun s hs pair hp => ?_⟩
  · rintro ⟨s, hs, rfl⟩
    rcases only s hs with hs | ⟨a, ha, rfl⟩
    · obtain ⟨r, hr, ha⟩ := (h.acts s.act).mp ⟨s, hs, rfl⟩
      exact ⟨r, List.mem_cons_of_mem q hr, ha⟩
    · exact ⟨q, List.mem_cons_self, ha⟩
  · rintro ⟨r, hr, ha⟩
    rcases List.mem_cons.mp hr with rfl | hr
    · exact ⟨.plain a, own a ha, rfl⟩
    · obtain ⟨s, hs, hsa⟩ := (h.acts a).mpr ⟨r, hr, ha⟩
      exact ⟨s, rest s hs, hsa⟩
  · rw [List.flatMap_cons, List.mem_append]
    rcases only s hs with hs | ⟨a, -, rfl⟩
    · exact .inr (h.standing s hs pair hp)
    · cases hp
  · rcases only s hs with hs | ⟨a, -, rfl⟩
    · obtain ⟨e, he, hr⟩ := h.methods s hs pair hp
      exact ⟨e, List.mem_cons_of_mem q he, hr⟩
    · cases hp

theorem part (h : Covers c ps ss) (hq : q.acts c = []) : Covers c (q :: ps) ss :=
  h.own (by simp [hq]) (fun _ => id) fun _ => .inl

/-- A part with acts of its own after the steps of what stands in it. -/
theorem after (h : Covers c ps ss) : Covers c (q :: ps) (ss ++ (q.acts c).map .plain) := by
  refine h.own (fun a ha => ?_) (fun s => List.mem_append_left _) fun s hs => ?_
  · exact List.mem_append_right _ (List.mem_map_of_mem ha)
  · simpa [eq_comm] using hs

theorem after_map {α : Type} {f : α → Act} {as : List α} (h : Covers c ps ss)
    (hq : q.acts c = as.map f) : Covers c (q :: ps) (ss ++ as.map fun a => .plain (f a)) := by
  have := h.after (q := q)
  rwa [hq, List.map_map] at this

/-- A literal that the parts force stands in all steps for a method that they refer to. -/
theorem under {literal method : DeclId} {target : Expr} (h : Covers c ps ss)
    (hl : literal ∈ ps.flatMap Part.forced) (ht : .expr target ∈ ps)
    (hm : target.referenced = some method) : Covers c ps (ss.map (.under literal method)) := by
  refine ⟨fun a => ?_, fun s hs pair hp => ?_, fun s hs pair hp => ?_⟩
  · rw [← h.acts]
    constructor
    · rintro ⟨_, hs, rfl⟩
      obtain ⟨s, hs', rfl⟩ := List.mem_map.mp hs
      exact ⟨s, hs', rfl⟩
    · rintro ⟨s, hs, rfl⟩
      exact ⟨_, List.mem_map_of_mem hs, rfl⟩
  · obtain ⟨s, hs', rfl⟩ := List.mem_map.mp hs
    rcases List.mem_append.mp hp with hp | hp
    · exact h.standing s hs' pair hp
    · obtain rfl := List.mem_singleton.mp hp
      exact hl
  · obtain ⟨s, hs', rfl⟩ := List.mem_map.mp hs
    rcases List.mem_append.mp hp with hp | hp
    · exact h.methods s hs' pair hp
    · obtain rfl := List.mem_singleton.mp hp
      exact ⟨target, ht, hm⟩

end Covers

namespace Part

/-- The literal of a specification is forced by the value that is specified; it stands for what is
specified. -/
theorem forced_of_shortcutOf {d literal method : DeclId} {isMethod isLazy : Bool} {value : Expr}
    (h : Context.shortcutOf d isMethod isLazy value = some (literal, method)) :
    literal ∈ (ofExpr value).flatMap forced ∧ method = d := by
  unfold Context.shortcutOf at h
  split at h
  · next hv =>
    obtain ⟨rfl, rfl⟩ := Prod.mk.inj (Option.some.inj h)
    refine ⟨List.mem_flatMap.mpr ⟨_, unwrap_mem value, ?_⟩, rfl⟩
    rw [hv]
    exact List.mem_singleton_self _
  · cases h

end Part

namespace Context
open Target
variable (c : Context)

mutual

theorem steps_covers : (e : Expr) → Covers c (Part.ofExpr e) (c.steps e)
  | .mk _ (.literal _) | .mk _ (.base _ _) | .mk _ (.constructor _) | .mk _ (.typeLiteral _)
  | .mk _ .this | .mk _ .super | .mk _ .outer => .part .nil rfl
  | .mk _ (.template es) | .mk _ (.tuple es) | .mk _ (.sequence es) =>
    .part (stepsAll_covers es) rfl
  | .mk _ (.member e _ _ _) | .mk _ (.paren e) | .mk _ (.unary _ e) | .mk _ (.present e)
  | .mk _ (.nonempty e) | .mk _ (.isOf e _) | .mk _ (.spread e) => .part (steps_covers e) rfl
  | .mk _ (.call f es) => .part (.append (steps_covers f) (stepsAll_covers es)) rfl
  | .mk _ (.callNamed f as) => .part (.append (steps_covers f) (stepsNamed_covers as)) rfl
  | .mk _ (.binary _ a b) | .mk _ (.assign a b) | .mk _ (.element a b) =>
    .part (.append (steps_covers a) (steps_covers b)) rfl
  | .mk _ (.within a b d) =>
    .part (.append (.append (steps_covers a) (steps_covers b)) (steps_covers d)) rfl
  | .mk _ (.choose cs yes no) =>
    .part (.append (.append (stepsConditions_covers cs) (steps_covers yes)) (steps_covers no)) rfl
  | .mk _ (.switch e cs otherwise) =>
    .part (.append (.append (steps_covers e) (stepsCases_covers cs))
      (stepsOption_covers otherwise)) rfl
  | .mk _ (.letIn bs result) => .part (.append (stepsBindings_covers bs) (steps_covers result)) rfl
  | .mk _ (.function _ lists body) =>
    .after_map (.append (stepsLists_covers lists) (stepsBody_covers body)) rfl
  | .mk _ (.span e first last) =>
    .part (.append (.append (steps_covers e) (stepsOption_covers first))
      (stepsOption_covers last)) rfl
  | .mk _ (.comprehension k) => .part (stepsClause_covers k) rfl

theorem stepsAll_covers : (es : List Expr) → Covers c (Part.ofAll es) (c.stepsAll es)
  | [] => .nil
  | e :: es => .append (steps_covers e) (stepsAll_covers es)

theorem stepsOption_covers : (e : Option Expr) → Covers c (Part.ofOption e) (c.stepsOption e)
  | none => .nil
  | some e => steps_covers e

theorem stepsNamed_covers : (as : List NamedArgument) → Covers c (Part.ofNamed as) (c.stepsNamed as)
  | [] => .nil
  | .specified _ e :: as => .append (.part (steps_covers e) rfl) (stepsNamed_covers as)
  | .attribute _ body :: as => .append (.after (stepsBody_covers body)) (stepsNamed_covers as)
  | .method _ lists body :: as =>
    .append (.after (.append (stepsLists_covers lists) (stepsBody_covers body)))
      (stepsNamed_covers as)
  | .sequenced es :: as => .append (.part (stepsAll_covers es) rfl) (stepsNamed_covers as)

theorem stepsConditions_covers : (cs : List Condition) →
    Covers c (Part.ofConditions cs) (c.stepsConditions cs)
  | [] => .nil
  | .mk _ e :: cs => .append (.after_map (steps_covers e) rfl) (stepsConditions_covers cs)

theorem stepsBindings_covers : (bs : List Binding) →
    Covers c (Part.ofBindings bs) (c.stepsBindings bs)
  | [] => .nil
  | .mk _ e :: bs => .append (.after (steps_covers e)) (stepsBindings_covers bs)

theorem stepsCases_covers : (cs : List ValueCase) → Covers c (Part.ofCases cs) (c.stepsCases cs)
  | [] => .nil
  | .mk es result :: cs =>
    .append (.append (stepsAll_covers es) (steps_covers result)) (stepsCases_covers cs)

theorem stepsClause_covers : (k : Clause) → Covers c (Part.ofClause k) (c.stepsClause k)
  | .forIn _ e next => .append (.after_map (steps_covers e) rfl) (stepsClause_covers next)
  | .onlyIf cs next => by
    refine .append (.own (stepsConditions_covers cs) ?_ ?_ ?_) (stepsClause_covers next) <;>
      grind [Part.acts]
  | .yield e => .part (steps_covers e) rfl

theorem stepsParameters_covers : (ps : List Parameter) →
    Covers c (Part.ofParameters ps) (c.stepsParameters ps)
  | [] => .nil
  | .value d initial :: ps => by
    refine .append (.own (stepsOption_covers initial) ?_ ?_ ?_) (stepsParameters_covers ps) <;>
      grind [Part.acts]
  | .functional d initial lists :: ps => by
    refine .append (.own (.append (stepsOption_covers initial) (stepsLists_covers lists))
      ?_ ?_ ?_) (stepsParameters_covers ps) <;>
      grind [Part.acts]

theorem stepsLists_covers : (lists : List (List Parameter)) →
    Covers c (Part.ofLists lists) (c.stepsLists lists)
  | [] => .nil
  | ps :: lists => .append (stepsParameters_covers ps) (stepsLists_covers lists)

theorem stepsBody_covers : (body : Body) → Covers c (Part.ofBody body) (c.stepsBody body)
  | .absent => .nil
  | .value e => steps_covers e
  | .block ss => stepsBlock_covers ss

theorem stepsStmt_covers : (s : Stmt) → Covers c (Part.ofStmt s) (c.stepsStmt s)
  | .declare head lists body => by
    refine .own (.append (stepsLists_covers lists) (stepsBody_covers body)) ?_ ?_ ?_ <;>
      grind [Part.acts, stepsStmt]
  | .specify target value isLazy => by
    have h := (steps_covers target).append (steps_covers value)
    rw [stepsStmt]
    cases hd : target.referenced with
    | none => exact .part h (by simp only [Part.acts, hd])
    | some d =>
      dsimp only
      cases hs : shortcutOf d ((c.program.decl? d).any Declaration.isMethod) isLazy value with
      | none => refine .own h ?_ ?_ ?_ <;> grind [Part.acts]
      | some pair =>
        obtain ⟨hl, hm⟩ := Part.forced_of_shortcutOf hs
        have hl : pair.1 ∈ (Part.ofExpr target ++ Part.ofExpr value).flatMap Part.forced := by
          rw [List.flatMap_append]
          exact List.mem_append_right _ hl
        have ht : .expr target ∈ Part.ofExpr target ++ Part.ofExpr value :=
          List.mem_append_left _ (Part.mem_ofExpr target)
        refine .own (h.under hl ht (hd.trans (congrArg some hm.symm))) ?_ ?_ ?_ <;>
          grind [Part.acts]
  | .evaluate e => .part (steps_covers e) rfl
  | .returns e | .throws e => .part (stepsOption_covers e) rfl
  | .ifElse cs yes no =>
    .part (.append (.append (stepsConditions_covers cs) (stepsBlock_covers yes))
      (stepsBlock_covers no)) rfl
  | .whileDo cs body => .part (.append (stepsConditions_covers cs) (stepsBlock_covers body)) rfl
  | .forIn _ e body otherwise =>
    .append (.append (.after_map (steps_covers e) rfl) (stepsBlock_covers body))
      (stepsBlock_covers otherwise)
  | .switch e cs otherwise =>
    .part (.append (.append (steps_covers e) (stepsBlockCases_covers cs))
      (stepsBlock_covers otherwise)) rfl
  | .block ss => .part (stepsBlock_covers ss) rfl
  | .breaks | .continues => .part .nil rfl

theorem stepsBlock_covers : (ss : List Stmt) → Covers c (Part.ofBlock ss) (c.stepsBlock ss)
  | [] => .nil
  | s :: ss => .append (stepsStmt_covers s) (stepsBlock_covers ss)

theorem stepsBlockCases_covers : (cs : List BlockCase) →
    Covers c (Part.ofBlockCases cs) (c.stepsBlockCases cs)
  | [] => .nil
  | .mk es body :: cs =>
    .append (.append (stepsAll_covers es) (stepsBlock_covers body)) (stepsBlockCases_covers cs)

end

theorem itinerary_covers (u : SourceUnit) : Covers c u.parts (c.itinerary u) :=
  c.stepsBlock_covers u.statements

theorem forced_declared (head : DeclareHead) (body : Body) :
    (c.declareActs head body ++ c.declaredActs head).flatMap Act.forced = [] := by
  simp only [List.flatMap_eq_nil_iff, List.mem_append]
  rintro a (ha | ha)
  · unfold declareActs at ha
    grind [Act.forced]
  · unfold declaredActs at ha
    grind [Act.forced]

/-- A part forces what its own acts force. -/
theorem forced_acts (q : Part) : (q.acts c).flatMap Act.forced = q.forced := by
  cases q with
  | expr e =>
    obtain ⟨n, form⟩ := e
    cases form <;> simp [Part.forced, Part.acts, Act.forced, List.flatMap_map]
  | argument a => cases a <;> simp [Part.forced, Part.acts, Act.forced]
  | condition k => cases k; simp [Part.forced, Part.acts, Act.forced, List.flatMap_map]
  | binding b => cases b; simp [Part.forced, Part.acts, Act.forced]
  | clause k => cases k <;> simp [Part.forced, Part.acts, Act.forced, List.flatMap_map]
  | parameter p =>
    cases p with
    | value => simp [Part.forced, Part.acts, Act.forced]
    | functional =>
      simp only [Part.forced, Part.acts, List.flatMap_append]
      split <;> simp [Act.forced]
  | stmt s =>
    cases s with
    | declare head lists body => exact c.forced_declared head body
    | specify target value isLazy =>
      simp only [Part.forced, Part.acts]
      cases target.referenced with
      | none => rfl
      | some d =>
        unfold specifiedActs
        dsimp only
        split <;> simp [Act.forced]
    | forIn => simp [Part.forced, Part.acts, Act.forced, List.flatMap_map]
    | _ => rfl

/-- Only the variables of conditions and bindings are taken for variables. -/
theorem bound_of_variable {q : Part} {d : DeclId} (h : .variable_ d ∈ q.acts c) : d ∈ q.bound := by
  cases q with
  | expr e =>
    obtain ⟨n, form⟩ := e
    cases form <;> simp [Part.acts] at h
  | argument a => cases a <;> simp [Part.acts] at h
  | condition k =>
    obtain ⟨test, e⟩ := k
    simpa [Part.acts, Part.bound, Condition.variable?] using h
  | binding b =>
    obtain ⟨x, e⟩ := b
    simpa [Part.acts, Part.bound] using h
  | clause k => cases k <;> simp [Part.acts] at h
  | parameter p =>
    cases p with
    | value => simp [Part.acts] at h
    | functional =>
      simp only [Part.acts] at h
      split at h <;> simp at h
  | stmt s =>
    cases s with
    | declare head lists body =>
      simp only [Part.acts, declareActs, declaredActs] at h
      grind
    | specify target value isLazy =>
      simp only [Part.acts, specifiedActs] at h
      grind
    | _ => simp [Part.acts] at h

theorem acts_of_declared {q : Part} {d : DeclId} {x : Declaration} (hd : d ∈ q.declared)
    (hx : c.program.decl? d = some x) (hk : x.isValue = true ∨ x.isMethod = true) :
    .value d ∈ q.acts c ∨ .method d ∈ q.acts c ∧ x.isMethod = true ∨ .decide d ∈ q.acts c := by
  unfold Part.declared at hd
  split at hd
  · next head lists body =>
    obtain rfl := List.mem_singleton.mp hd
    simp only [Part.acts, declaredActs, hx, Option.map_some, List.mem_append]
    unfold Declaration.isValue Declaration.isMethod at hk
    cases hm : x.kind with
    | value => simp
    | method lists => simp [Declaration.isMethod, hm]
    | _ => simp [hm] at hk
  · obtain rfl := List.mem_singleton.mp hd
    exact .inr (.inr (by simp [Part.acts]))
  · cases hd

/-- A unit forces a declaration exactly if a step of it does. -/
theorem mem_forced_iff {u : SourceUnit} {d : DeclId} :
    d ∈ u.forced ↔ ∃ s ∈ c.itinerary u, d ∈ s.act.forced := by
  have hu := c.itinerary_covers u
  constructor
  · intro hd
    obtain ⟨q, hq, hd⟩ := List.mem_flatMap.mp hd
    rw [← c.forced_acts] at hd
    obtain ⟨a, ha, hd⟩ := List.mem_flatMap.mp hd
    obtain ⟨s, hs, rfl⟩ := (hu.acts a).mpr ⟨q, hq, ha⟩
    exact ⟨s, hs, hd⟩
  · rintro ⟨s, hs, hd⟩
    obtain ⟨q, hq, ha⟩ := (hu.acts s.act).mp ⟨s, hs, rfl⟩
    refine List.mem_flatMap.mpr ⟨q, hq, ?_⟩
    rw [← c.forced_acts]
    exact List.mem_flatMap.mpr ⟨s.act, ha, hd⟩

end Context

end Unbox
