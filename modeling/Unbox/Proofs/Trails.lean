import Unbox.Policy.Standard
import Unbox.Proofs.Order
import Unbox.Proofs.Reasons

/-!
# Trails: how far one decision reaches

A declaration is decided as another one is, that one as a third, and so on. The first link goes to
the topmost declaration; what is reached by a link counts as its own topmost declaration from then on.

* `Context.link?` : the declaration that another one is decided as, if there is one;
* `Context.ownRule` : what its own type says about a declaration without a link;
* `Context.ground_of_source` : there is no other ground for a decision;
* `Context.Trail r m seen e d passed v` : the links lead from `d` through `passed` to the answer `v`;
* `Context.Arrives m passed v s` : in `s` what is passed has the answer `v`, and nothing else changed
  since `m`;
* `Context.exists_trail_of_settleWithin` : settling arrives where the trail leads;
* `Context.ensure_follows_trail` : so does a request for a single declaration.
-/

namespace Unbox

namespace Context
open Decide
variable (c : Context)

/-! ## Links -/

/-- The topmost declaration of `d` while the rewrites `r` are in force. -/
def topUnder (r : Rewrites) (d : DeclId) : DeclId := c.program.topmost c.policy c.limit r d

/-- A functional parameter that becomes no method. -/
def isCallable (d : DeclId) (x : Declaration) : Bool :=
  x.isFunctionalParameter && !c.policy.createsMethod c.program d

/-- What a class parameter refines directly, if that is another declaration. -/
def pointer? (d : DeclId) (x : Declaration) : Option DeclId :=
  match x.scope with
  | .declaration owner =>
    if x.isParameter && (c.program.decl? owner).any Declaration.isClass then
      x.refined.filter (· ≠ d)
    else none
  | _ => none

/-- What a value parameter of a functional parameter that becomes a method stands for, if that
method has another topmost declaration: its counterpart there, or else that declaration. -/
def counterpart? (r : Rewrites) (d : DeclId) (x : Declaration) : Option DeclId :=
  if x.isValueParameter && c.isNested x then
    x.scope.declaration?.bind fun function =>
      let refined := c.topUnder r function
      if c.policy.createsMethod c.program function && refined ≠ function then
        some ((c.positionalCounterpart function refined d).getD refined)
      else none
  else none

/-- The declaration that `d` is decided as, given the topmost declaration `e` of `d`. -/
def link? (r : Rewrites) (e d : DeclId) (x : Declaration) : Option DeclId :=
  if e ≠ d then some e else c.pointer? d x <|> c.counterpart? r d x

/-- What its own type says about a declaration without a link: a basic type and no result at all are
unboxed in a plain declaration, anything but the top type and optional types in a parameter of a
functional parameter that becomes a method. -/
def ownRule (b : BoundMarks) (d : DeclId) (x : Declaration) (type : TypeId) : Bool :=
  let plain := !c.erasesBy b type && !c.isNested x && !x.hasSeveralLists
  if x.isMethod && c.policy.isVoid c.program type && c.policy.boxesVoid c.program d && plain then false
  else if (c.policy.isBasic c.program type || c.policy.isUnboxedVoid c.program d) && plain then true
  else x.isValueParameter && c.isNested x &&
    x.scope.declaration?.any (c.policy.createsMethod c.program) &&
    !(c.policy.isAnything c.program type || c.policy.isOptional c.program type)

variable {c} {r : Rewrites} {b : BoundMarks} {d e : DeclId} {x : Declaration} {type : TypeId}

theorem source_eq : c.source d e x = if e ≠ d then e else (c.pointer? d x).getD d := by
  by_cases he : e = d
  · subst he
    unfold source pointer?
    cases x.scope with
    | declaration owner =>
      simp only [decide_true, Bool.true_and, ne_eq, not_true_eq_false, if_false]
      split
      · cases x.refined with
        | none => rfl
        | some z => by_cases hz : z = e <;> simp [hz, Option.filter_some]
      · rfl
    | _ => simp
  · rw [source_of_ne he, if_pos he]

theorem pointer?_ne {z : DeclId} (h : c.pointer? d x = some z) : z ≠ d := by
  unfold pointer? at h
  cases hs : x.scope with
  | declaration owner =>
    simp only [hs] at h
    split at h
    · simpa using (Option.filter_eq_some_iff.mp h).2
    · cases h
  | _ => simp [hs] at h

/-- Without a pointer there is the counterpart, or else the own rule. -/
theorem ownGround_eq :
    c.ownGround r b d x type = (c.counterpart? r d x).elim (.own (c.ownRule b d x type)) .other := by
  unfold ownGround counterpart? ownRule
  cases hn : c.isNested x with
  | false =>
    simp only [Bool.and_false, Bool.false_and, Bool.false_eq_true, if_false, Option.elim_none]
    split
    · rfl
    split
    · rfl
    · rfl
  | true =>
    simp only [Bool.not_true, Bool.and_false, Bool.false_and, Bool.and_true, Bool.false_eq_true,
      if_false]
    cases x.isValueParameter with
    | false => rfl
    | true =>
      cases x.scope.declaration? with
      | none => rfl
      | some function =>
        simp only [if_true, Option.elim_some, Option.bind_some, Option.any_some, Bool.true_and]
        cases c.policy.createsMethod c.program function with
        | false => rfl
        | true =>
          unfold nestedGround topUnder
          dsimp only
          by_cases ht : c.program.topmost c.policy c.limit r function = function <;> simp [ht]

/-- A declaration is decided as the one that its link leads to, and by its own rule if it has none. -/
theorem ground_of_source (h : c.isCallable d x = false) :
    c.ground r b d (c.source d e x) x type =
      (c.link? r e d x).elim (.own (c.ownRule b d x type)) .other := by
  unfold isCallable at h
  unfold ground link?
  rw [h, if_neg Bool.false_ne_true, source_eq]
  by_cases he : e = d
  · simp only [he, ne_eq, not_true_eq_false, if_false]
    cases hp : c.pointer? d x with
    | none =>
      rw [Option.getD_none, if_neg (not_not_intro rfl), ownGround_eq]
      rfl
    | some z =>
      rw [Option.getD_some, if_pos (pointer?_ne hp)]
      rfl
  · rw [if_pos he, if_pos he, if_pos he]
    rfl

/-! ## Trails -/

/-- The links lead from `d`, given its topmost declaration `e`, through the declarations `passed` to
the answer `v`. They end at the first declaration that is decided, has no type, becomes no method or
has no link; a declaration of `seen` is one that the links led through before. -/
inductive Trail (c : Context) (r : Rewrites) (m : Marks) :
    List DeclId → DeclId → DeclId → List DeclId → Option Bool → Prop where
  | again {seen : List DeclId} {e d : DeclId} (hs : d ∈ seen) : Trail c r m seen e d [] none
  | decided {seen : List DeclId} {e d : DeclId} {b : Bool} (hs : d ∉ seen)
    (hu : m.unboxed d = some b) : Trail c r m seen e d [] (some b)
  | untyped {seen : List DeclId} {e d : DeclId} {x : Declaration} (hs : d ∉ seen)
    (hu : m.unboxed d = none) (hx : c.program.decl? d = some x) (ht : x.type = none) :
    Trail c r m seen e d [] none
  | callable {seen : List DeclId} {e d : DeclId} {x : Declaration} {type : TypeId} (hs : d ∉ seen)
    (hu : m.unboxed d = none) (hx : c.program.decl? d = some x) (ht : x.type = some type)
    (hc : c.isCallable d x = true) : Trail c r m seen e d [d] (some false)
  | own {seen : List DeclId} {e d : DeclId} {x : Declaration} {type : TypeId} (hs : d ∉ seen)
    (hu : m.unboxed d = none) (hx : c.program.decl? d = some x) (ht : x.type = some type)
    (hc : c.isCallable d x = false) (hl : c.link? r e d x = none) :
    Trail c r m seen e d [d] (some (c.ownRule m.bounds d x type))
  | step {seen : List DeclId} {e d z : DeclId} {x : Declaration} {type : TypeId}
    {passed : List DeclId} {v : Option Bool} (hs : d ∉ seen) (hu : m.unboxed d = none)
    (hx : c.program.decl? d = some x) (ht : x.type = some type) (hc : c.isCallable d x = false)
    (hl : c.link? r e d x = some z) (h : Trail c r m (d :: seen) z z passed v) :
    Trail c r m seen e d (d :: passed) v

namespace Trail
variable {m : Marks} {seen passed passed' : List DeclId} {v v' : Option Bool}

/-- By induction on one of the two; every case of the other but the same one is excluded. -/
theorem unique (h : c.Trail r m seen e d passed v) (h' : c.Trail r m seen e d passed' v') :
    passed = passed' ∧ v = v' := by
  induction h generalizing passed' v' with
  | again hs => cases h' <;> first | exact ⟨rfl, rfl⟩ | contradiction
  | decided hs hu => cases h' <;> simp_all
  | untyped hs hu hx ht => cases h' <;> simp_all
  | callable hs hu hx ht hc => cases h' <;> simp_all
  | own hs hu hx ht hc hl => cases h' <;> simp_all
  | step hs hu hx ht hc hl _ ih =>
    cases h' with
    | step _ _ hx' _ _ hl' h' =>
      cases hx.symm.trans hx'
      cases hl.symm.trans hl'
      obtain ⟨rfl, rfl⟩ := ih h'
      exact ⟨rfl, rfl⟩
    | _ => simp_all

/-- What is passed was not seen before and is undecided. -/
theorem fresh (h : c.Trail r m seen e d passed v) : ∀ y ∈ passed, y ∉ seen ∧ m.unboxed y = none := by
  induction h with
  | again | decided | untyped => exact List.forall_mem_nil _
  | callable hs hu | own hs hu => exact List.forall_mem_singleton.mpr ⟨hs, hu⟩
  | step hs hu _ _ _ _ _ ih =>
    refine List.forall_mem_cons.mpr ⟨⟨hs, hu⟩, fun y hy => ?_⟩
    exact ⟨fun hm => (ih y hy).1 (List.mem_cons_of_mem _ hm), (ih y hy).2⟩

/-- A trail that passes nothing ends where it starts, with the answer that is there. -/
theorem eq_unboxed_or_mem (h : c.Trail r m seen e d passed v)
    (hseen : ∀ y ∈ seen, m.unboxed y = none) : v = m.unboxed d ∨ d ∈ passed := by
  cases h with
  | again hs => exact .inl (hseen d hs).symm
  | decided _ hu => exact .inl hu.symm
  | untyped _ hu => exact .inl hu.symm
  | callable | own | step => exact .inr List.mem_cons_self

end Trail

/-! ## Settling goes along the trail -/

/-- The decisions where a trail has led: what is passed has the answer `v`, all other declarations are
as in `m`, and so are the answers about bounds. -/
structure Arrives (c : Context) (r : Rewrites) (m : Marks) (seen passed : List DeclId)
    (v : Option Bool) (s : Decisions) : Prop where
  reached : ∀ y ∈ passed, s.marks.unboxed y = v
  frame : ∀ y, y ∉ passed → s.marks.unboxed y = m.unboxed y
  answers : SameAnswers c.policy c.program m.bounds s.marks.bounds
  rewrites : s.rewrites = r
  pending : s.pending = seen

/-- The declarations that are being decided: each one once, all of them undecided. -/
structure Waiting (c : Context) (m : Marks) (seen : List DeclId) : Prop where
  nodup : seen.Nodup
  known : ∀ y ∈ seen, c.program.hasDecl y = true
  undecided : ∀ y ∈ seen, m.unboxed y = none

section Settling
variable {m : Marks} {seen passed : List DeclId} {v : Option Bool} {s t : Decisions} {fuel : Nat}

theorem Waiting.nil (m : Marks) : c.Waiting m [] :=
  ⟨List.nodup_nil, List.forall_mem_nil _, List.forall_mem_nil _⟩

theorem Waiting.cons (h : c.Waiting m seen) (hd : d ∉ seen) (hx : c.program.decl? d = some x)
    (hu : m.unboxed d = none) : c.Waiting m (d :: seen) :=
  ⟨List.nodup_cons.mpr ⟨hd, h.nodup⟩,
    List.forall_mem_cons.mpr ⟨Program.hasDecl_of_decl? hx, h.known⟩,
    List.forall_mem_cons.mpr ⟨hu, h.undecided⟩⟩

namespace Arrives

theorem nil (v : Option Bool) (h : Alike c { marks := m, rewrites := r, pending := seen } s) :
    c.Arrives r m seen [] v s :=
  ⟨List.forall_mem_nil _, fun y _ => h.unboxed y, h.answers, h.rewrites, h.pending⟩

theorem of_alike (h : c.Arrives r m seen passed v s) (ha : Alike c s t) :
    c.Arrives r m seen passed v t :=
  ⟨fun y hy => (ha.unboxed y).trans (h.reached y hy), fun y hy => (ha.unboxed y).trans (h.frame y hy),
    h.answers.trans ha.answers, ha.rewrites.trans h.rewrites, ha.pending.trans h.pending⟩

/-- The declaration that a trail starts from has its answer. -/
theorem unboxed_eq (h : c.Arrives r m seen passed v s) (ht : c.Trail r m seen e d passed v)
    (hseen : c.Waiting m seen) : s.marks.unboxed d = v := by
  by_cases hd : d ∈ passed
  · exact h.reached d hd
  · rcases ht.eq_unboxed_or_mem hseen.undecided with hv | hd'
    · rw [h.frame d hd, hv]
    · exact absurd hd' hd

/-- The declaration that comes before a trail gets its answer too. -/
theorem conclude (h : c.Arrives r m (d :: seen) passed v s) (hd : d ∉ passed)
    (hu : m.unboxed d = none) :
    c.Arrives r m seen (d :: passed) v
      (after (conclude d v) { s with pending := s.pending.erase d }) := by
  have hs : s.marks.unboxed d = none := (h.frame d hd).trans hu
  have hp : s.pending.erase d = seen := by rw [h.pending, List.erase_cons_head]
  cases v with
  | none =>
    refine ⟨List.forall_mem_cons.mpr ⟨hs, h.reached⟩, fun y hy => ?_, h.answers, h.rewrites, hp⟩
    exact h.frame y fun hy' => hy (List.mem_cons_of_mem d hy')
  | some b =>
    have hset (y : DeclId) : (s.marks.setUnboxed d b).unboxed y =
        if y = d then some b else s.marks.unboxed y := by
      rw [Marks.unboxed_setUnboxed, hs, Option.getD_none]
    refine ⟨fun y hy => ?_, fun y hy => ?_, ?_, h.rewrites, hp⟩
    · refine (hset y).trans ?_
      split
      · rfl
      · next hyd => exact h.reached y (List.mem_of_ne_of_mem hyd hy)
    · refine (hset y).trans ?_
      rw [if_neg (List.ne_of_not_mem_cons hy), h.frame y (List.not_mem_of_not_mem_cons hy)]
    · have hbounds : (s.marks.setUnboxed d b).bounds = s.marks.bounds := by
        unfold Marks.setUnboxed
        split <;> rfl
      exact hbounds ▸ h.answers

end Arrives

/-- What is inherited from is settled only if it is undecided; otherwise its trail ends at once. -/
theorem exists_trail_of_inheritWithin {z : DeclId}
    (hs : Alike c { marks := m, rewrites := r, pending := seen } s) (hseen : c.Waiting m seen)
    (hsettle : result (c.settleWithin fuel z z) s = .ok () → ∃ passed v,
      c.Trail r m seen z z passed v ∧
        c.Arrives r m seen passed v (after (c.settleWithin fuel z z) s))
    (h : result (c.inheritWithin fuel z) s = .ok ()) :
    ∃ passed v, c.Trail r m seen z z passed v ∧
      c.Arrives r m seen passed v (after (c.inheritWithin fuel z) s) := by
  unfold inheritWithin at h ⊢
  obtain ⟨x, hx⟩ := decl?_of_lookup_bind h
  rw [lookup_bind_of_decl? hx] at h ⊢
  rw [result_bind, result_unboxed, after_unboxed] at h
  rw [after_bind, result_unboxed, after_unboxed]
  dsimp only at h ⊢
  cases hb : s.marks.unboxed z with
  | some b =>
    have hz : m.unboxed z = some b := (hs.unboxed z).symm.trans hb
    have hns : z ∉ seen := fun hz' => nomatch (hseen.undecided z hz').symm.trans hz
    exact ⟨[], some b, .decided hns hz, .nil _ hs⟩
  | none =>
    rw [hb, Option.isNone_none, if_pos rfl] at h
    rw [Option.isNone_none, if_pos rfl]
    exact hsettle h

/-- The verdict for `d` is the answer of its trail, if whatever is inherited from arrives where its
own trail leads. -/
theorem exists_trail_of_verdict {inherit : DeclId → Decide Unit} (hx : c.program.decl? d = some x)
    (ht : x.type = some type) (hu : m.unboxed d = none) (hd : d ∉ seen)
    (hseen : c.Waiting m (d :: seen))
    (hs : Alike c { marks := m, rewrites := r, pending := d :: seen } s)
    (hinherit : ∀ z t, Alike c { marks := m, rewrites := r, pending := d :: seen } t →
      result (inherit z) t = .ok () → ∃ passed v, c.Trail r m (d :: seen) z z passed v ∧
        c.Arrives r m (d :: seen) passed v (after (inherit z) t))
    (hv : result (c.verdict inherit d (c.source d e x) type) s = .ok v) :
    ∃ passed, d ∉ passed ∧ c.Trail r m seen e d (d :: passed) v ∧
      c.Arrives r m (d :: seen) passed v (after (c.verdict inherit d (c.source d e x) type) s) := by
  have hconcludes := verdict_concludes hx hv
  rw [hs.rewrites, c.ground_congr hs.answers] at hconcludes
  generalize after (c.verdict inherit d (c.source d e x) type) s = t at hconcludes
  cases hc : c.isCallable d x with
  | true =>
    have hg : c.ground r m.bounds d (c.source d e x) x type = .own false := if_pos hc
    rw [hg] at hconcludes
    cases hconcludes with
    | own _ ha => exact ⟨[], List.not_mem_nil, .callable hd hu hx ht hc, .nil _ (hs.trans ha)⟩
  | false =>
    rw [ground_of_source hc] at hconcludes
    cases hl : c.link? r e d x with
    | none =>
      rw [hl] at hconcludes
      cases hconcludes with
      | own _ ha => exact ⟨[], List.not_mem_nil, .own hd hu hx ht hc hl, .nil _ (hs.trans ha)⟩
    | some z =>
      rw [hl] at hconcludes
      cases hconcludes with
      | other _ ha hz ha' =>
        obtain ⟨passed, v, htrail, harrives⟩ := hinherit z _ (hs.trans ha) hz
        replace harrives := harrives.of_alike ha'
        rw [harrives.unboxed_eq htrail hseen]
        have hdp : d ∉ passed := fun h => (htrail.fresh d h).1 List.mem_cons_self
        exact ⟨passed, hdp, .step hd hu hx ht hc hl htrail, harrives⟩

/-- By induction on the fuel: the declarations being decided and the fuel that is left are always
more than there are declarations. -/
theorem exists_trail_of_settleWithin
    (hs : Alike c { marks := m, rewrites := r, pending := seen } s) (hseen : c.Waiting m seen)
    (hf : c.program.decls.size < fuel + seen.length)
    (h : result (c.settleWithin fuel d e) s = .ok ()) :
    ∃ passed v, c.Trail r m seen e d passed v ∧
      c.Arrives r m seen passed v (after (c.settleWithin fuel d e) s) := by
  induction fuel generalizing d e seen s with
  | zero =>
    have := Program.length_le_of_nodup hseen.nodup hseen.known
    omega
  | succ fuel ih =>
    obtain ⟨x, hx⟩ : ∃ x, c.program.decl? d = some x := by
      rw [settleWithin_succ] at h
      exact decl?_of_lookup_bind h
    have decided {b : Bool} (hb : m.unboxed d = some b) : c.Trail r m seen e d [] (some b) :=
      .decided (fun hd => nomatch (hseen.undecided d hd).symm.trans hb) hb
    cases ht : x.type with
    | none =>
      rw [settleWithin_succ, lookup_bind_of_decl? hx]
      simp only [ht]
      cases hu : m.unboxed d with
      | some b => exact ⟨[], _, decided hu, .nil _ hs⟩
      | none =>
        by_cases hd : d ∈ seen
        · exact ⟨[], none, .again hd, .nil _ hs⟩
        · exact ⟨[], none, .untyped hd hu hx ht, .nil _ hs⟩
    | some type =>
      have ha : Alike c s (after (c.inheritUnderlying d (c.source d e x) type) s) :=
        inheritUnderlying_alike d _ type
      have hcases := settleWithin_cases hx ht h
      generalize after (c.inheritUnderlying d (c.source d e x) type) s = u at ha hcases
      replace hs := hs.trans ha
      rcases hcases with ⟨hb, heq⟩ | ⟨-, hpend, stats, heq⟩ | ⟨hb, hpend, v, hv, heq⟩
      · rw [heq]
        obtain ⟨b, hb⟩ := Option.ne_none_iff_exists'.mp hb
        exact ⟨[], _, decided ((hs.unboxed d).symm.trans hb), .nil _ hs⟩
      · rw [heq]
        rw [hs.pending] at hpend
        exact ⟨[], none, .again hpend, .nil _ ⟨hs.unboxed, hs.answers, hs.rewrites, hs.pending⟩⟩
      · rw [heq]
        have hu : m.unboxed d = none := (hs.unboxed d).symm.trans hb
        rw [hs.pending] at hpend
        have hseen' := hseen.cons hpend hx hu
        have hinner : Alike c { marks := m, rewrites := r, pending := d :: seen }
            { u with pending := d :: u.pending } :=
          ⟨hs.unboxed, hs.answers, hs.rewrites, congrArg (d :: ·) hs.pending⟩
        obtain ⟨passed, hdp, htrail, harrives⟩ :=
          exists_trail_of_verdict hx ht hu hpend hseen' hinner (fun z t hz hok =>
            exists_trail_of_inheritWithin hz hseen'
              (ih hz hseen' (by simp only [List.length_cons]; omega)) hok) hv
        exact ⟨d :: passed, v, htrail, harrives.conclude hdp hu⟩

theorem exists_trail_of_settle (hp : s.pending = []) (h : result (c.settle d e) s = .ok ()) :
    ∃ passed v, c.Trail s.rewrites s.marks [] e d passed v ∧
      c.Arrives s.rewrites s.marks [] passed v (after (c.settle d e) s) := by
  have hs : Alike c { marks := s.marks, rewrites := s.rewrites, pending := [] } s :=
    ⟨fun _ => rfl, .refl _, rfl, hp⟩
  refine exists_trail_of_settleWithin hs (.nil s.marks) ?_ h
  rw [List.length_nil]
  omega

end Settling

/-! ## Requests -/

section Requests
variable {s : Decisions}

/-- Settles a method, given its topmost declaration. A method without a name is boxed. -/
def settleNamed (c : Context) (d topmost : DeclId) : Decide Unit := do
  if (← c.lookup d).name.isSome then c.settle d topmost
  else modifyMarks (·.setUnboxed d false)

/-- To decide a method whose topmost declaration is a method comes to this. -/
theorem decideMethod_run
    (ht : (c.program.decl? (c.topUnder s.rewrites d)).any Declaration.isMethod = true) :
    result (c.decideMethod d) s = result (c.settleNamed d (c.topUnder s.rewrites d)) s ∧
      after (c.decideMethod d) s = after (c.settleNamed d (c.topUnder s.rewrites d)) s := by
  obtain ⟨y, hy, hm⟩ := (Option.any_eq_true _ _).mp ht
  unfold topUnder at hy ⊢
  rw [decideMethod, result_topmost_bind, after_topmost_bind, lookup_bind_of_decl? hy, hm]
  exact ⟨rfl, rfl⟩

theorem ensure_run (hx : c.program.decl? d = some x)
    (hm : x.isMethod = true → x.name.isSome = true ∧
      (c.program.decl? (c.topUnder s.rewrites d)).any Declaration.isMethod = true) :
    result (c.ensure d) s = result (c.settle d (c.topUnder s.rewrites d)) s ∧
      after (c.ensure d) s = after (c.settle d (c.topUnder s.rewrites d)) s := by
  rw [ensure, lookup_bind_of_decl? hx]
  cases h : x.isMethod with
  | true =>
    obtain ⟨hn, ht⟩ := hm h
    rw [if_pos rfl]
    have hrun := decideMethod_run ht
    rwa [settleNamed, lookup_bind_of_decl? hx, if_pos hn] at hrun
  | false =>
    rw [if_neg Bool.false_ne_true, decideValue, result_topmost_bind, after_topmost_bind]
    exact ⟨rfl, rfl⟩

/-- What is noted about the type of each declaration is as in `m`. -/
def NotesAs (m m' : Marks) : Prop :=
  ∀ y, m'.typeErased y = m.typeErased y ∧ m'.untrusted y = m.untrusted y

/-- A decision notes nothing else. -/
theorem admits_notesAs (r : Rewrites) (m : Marks) : c.Admits r (NotesAs m) fun _ => True where
  unboxed _ _ _ _ := trivial
  decide m' d b h _ y := by
    obtain ⟨he, hu⟩ := h y
    unfold Marks.setUnboxed
    split
    · simp only [Marks.typeErased, Marks.untrusted, Marks.updateDeclaration, Column.get_update]
        at he hu ⊢
      split
      · next hyd =>
        subst hyd
        exact ⟨he, hu⟩
      · exact ⟨he, hu⟩
    · exact ⟨he, hu⟩
  underlying _ _ _ h := h
  bounds _ _ h := h
  own _ _ := trivial
  inherits _ _ _ _ := trivial

/-- A request that succeeds for an undecided declaration with a type follows its trail: there is
exactly one, all that it passes gets its answer, which is none if the trail ends at an undecided
declaration without a type or comes back to itself, and nothing else is decided or noted. -/
theorem ensure_follows_trail (hp : s.pending = []) (hx : c.program.decl? d = some x)
    (ht : x.type = some type) (hu : s.marks.unboxed d = none)
    (hm : x.isMethod = true → x.name.isSome = true ∧
      (c.program.decl? (c.topUnder s.rewrites d)).any Declaration.isMethod = true)
    (hok : result (c.ensure d) s = .ok ()) :
    let decided := (after (c.ensure d) s).marks
    ∃ passed v, c.Trail s.rewrites s.marks [] (c.topUnder s.rewrites d) d passed v ∧
      (∀ passed' v', c.Trail s.rewrites s.marks [] (c.topUnder s.rewrites d) d passed' v' →
        passed' = passed ∧ v' = v) ∧
      d ∈ passed ∧ (∀ y ∈ passed, decided.unboxed y = v) ∧
      (∀ y, y ∉ passed → decided.unboxed y = s.marks.unboxed y) ∧
      ∀ y, decided.typeErased y = s.marks.typeErased y ∧
        decided.untrusted y = s.marks.untrusted y := by
  obtain ⟨hr, ha⟩ := ensure_run hx hm
  rw [hr] at hok
  rw [ha]
  obtain ⟨passed, v, htrail, harrives⟩ := exists_trail_of_settle hp hok
  have hnotes := (admits_notesAs s.rewrites s.marks).maintains_settle (c := c) (d := d)
    (fun _ => rfl) s ⟨rfl, fun _ => ⟨rfl, rfl⟩⟩
  refine ⟨passed, v, htrail, fun _ _ h => h.unique htrail, ?_, harrives.reached, harrives.frame,
    hnotes.2⟩
  cases htrail with
  | again hs => cases hs
  | decided _ hb => cases hu.symm.trans hb
  | untyped _ _ hx' hn =>
    cases hx.symm.trans hx'
    cases ht.symm.trans hn
  | callable | own | step => exact List.mem_cons_self

end Requests

end Context

/-- A class (2) with three integer parameters: two that refine each other (3 and 4), and one (5) that
refines a value (7) of an interface (6). -/
def Program.entwined : Program where
  decls := #[
    { name := some ⟨0⟩, kind := .classType {}, scope := .unit },
    { name := some ⟨1⟩, kind := .classType {}, scope := .unit },
    { name := some ⟨2⟩, kind := .classType { list := some [⟨3⟩, ⟨4⟩, ⟨5⟩], satisfied := [⟨1⟩] },
      scope := .unit },
    { name := some ⟨3⟩, kind := .value, scope := .declaration ⟨2⟩, type := some ⟨0⟩,
      refined := some ⟨4⟩, modifiers := ⟨[.parameter]⟩ },
    { name := some ⟨4⟩, kind := .value, scope := .declaration ⟨2⟩, type := some ⟨0⟩,
      refined := some ⟨3⟩, modifiers := ⟨[.parameter]⟩ },
    { name := some ⟨5⟩, kind := .value, scope := .declaration ⟨2⟩, type := some ⟨0⟩,
      refined := some ⟨7⟩, modifiers := ⟨[.parameter]⟩ },
    { name := some ⟨6⟩, kind := .interfaceType { members := [⟨7⟩] }, scope := .unit },
    { name := some ⟨5⟩, kind := .value, scope := .declaration ⟨6⟩, type := some ⟨0⟩,
      modifiers := ⟨[.shared, .formal]⟩ }]
  types := #[.nominal ⟨1⟩ [], .nominal ⟨6⟩ []]
  core := ⟨⟨0⟩, ⟨0⟩, ⟨0⟩, ⟨0⟩, ⟨1⟩, ⟨1⟩, ⟨1⟩, ⟨1⟩, ⟨1⟩, ⟨1⟩, ⟨1⟩, ⟨1⟩, ⟨0⟩, ⟨0⟩, ⟨0⟩⟩

namespace Context
open Decide

/-- A request for the third parameter unboxes the value that it refines as well; one for the first
decides neither of the two that refine each other. -/
theorem ensure_follows_trail_entwined :
    let c : Context := ⟨⟨.entwined, .standard⟩, 8⟩
    let third := (after (c.ensure ⟨5⟩) { marks := {} }).marks
    let first := (after (c.ensure ⟨3⟩) { marks := {} }).marks
    (third.unboxed ⟨5⟩ = some true ∧ third.unboxed ⟨7⟩ = some true ∧ third.unboxed ⟨3⟩ = none) ∧
      first.unboxed ⟨3⟩ = none ∧ first.unboxed ⟨4⟩ = none := by
  intro c third first
  have own : c.Trail {} {} [⟨5⟩] ⟨7⟩ ⟨7⟩ [⟨7⟩] _ := .own (by decide) rfl rfl rfl rfl rfl
  have value : c.Trail {} {} [] (c.topUnder {} ⟨5⟩) ⟨5⟩ [⟨5⟩, ⟨7⟩] (some true) := by
    rw [(by decide +kernel : c.topUnder {} ⟨5⟩ = ⟨5⟩)]
    exact .step List.not_mem_nil rfl rfl rfl rfl rfl own
  have cycle : c.Trail {} {} [] (c.topUnder {} ⟨3⟩) ⟨3⟩ [⟨3⟩, ⟨4⟩] none := by
    rw [(by decide +kernel : c.topUnder {} ⟨3⟩ = ⟨3⟩)]
    exact .step List.not_mem_nil rfl rfl rfl rfl rfl
      (.step (by decide) rfl rfl rfl rfl rfl (.again (by decide)))
  constructor
  · obtain ⟨passed, v, -, hunique, -, hreached, hframe, -⟩ :=
      ensure_follows_trail (c := c) (s := { marks := {} }) (d := ⟨5⟩) rfl rfl rfl rfl nofun
        (by decide +kernel)
    obtain ⟨rfl, rfl⟩ := hunique _ _ value
    exact ⟨hreached _ (by decide), hreached _ (by decide), hframe _ (by decide)⟩
  · obtain ⟨passed, v, -, hunique, -, hreached, -, -⟩ :=
      ensure_follows_trail (c := c) (s := { marks := {} }) (d := ⟨3⟩) rfl rfl rfl rfl nofun
        (by decide +kernel)
    obtain ⟨rfl, rfl⟩ := hunique _ _ cycle
    exact ⟨hreached _ (by decide), hreached _ (by decide)⟩

end Context

end Unbox
