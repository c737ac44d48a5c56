import Unbox.Proofs.Answers
import Unbox.Proofs.Settling

/-!
# What a decision rests on

* `Ground` : a declaration is decided by its own type, or as another declaration is;
* `Context.ground` : which of the two, without any effect;
* `Alike c s s'` : from `s` to `s'` no decision changed and no answer about a bound;
* `Context.verdict_concludes` : a verdict that does not fail is the one that the ground gives.
-/

namespace Unbox

/-- What the decision for a declaration rests on. -/
inductive Ground where
  /-- Its own type. -/
  | own (unboxed : Bool)
  /-- The decision for another declaration. -/
  | other (source : DeclId)

namespace Context
variable (c : Context)

/-- Declared directly inside a functional parameter. -/
def isNested (x : Declaration) : Bool := (c.program.container? x).any Declaration.isFunctionalParameter

/-- The type is a type parameter that keeps none of its bounds. -/
def erasesBy (b : BoundMarks) (t : TypeId) : Bool :=
  match c.program.form? t with
  | some (.typeParameter d) => !(c.policy.keepsBound c.program d b).1
  | _ => false

/-- The ground for the value parameter `d` of the functional parameter `function`, which becomes a
method. -/
def nestedGround (r : Rewrites) (d function : DeclId) (type : TypeId) : Ground :=
  let refined := c.program.topmost c.policy c.limit r function
  if refined = function then
    .own !(c.policy.isAnything c.program type || c.policy.isOptional c.program type)
  else .other ((c.positionalCounterpart function refined d).getD refined)

/-- The ground for a declaration that is not decided as the one it refines. -/
def ownGround (r : Rewrites) (b : BoundMarks) (d : DeclId) (x : Declaration) (type : TypeId) :
    Ground :=
  let plain := !c.erasesBy b type && !c.isNested x && !x.hasSeveralLists
  if x.isMethod && c.policy.isVoid c.program type && c.policy.boxesVoid c.program d && plain then
    .own false
  else if (c.policy.isBasic c.program type || c.policy.isUnboxedVoid c.program d) && plain then
    .own true
  else if x.isValueParameter && c.isNested x then
    x.scope.declaration?.elim (.own false) fun function =>
      if c.policy.createsMethod c.program function then c.nestedGround r d function type
      else .own false
  else .own false

/-- The ground for `d`, given what it refines. -/
def ground (r : Rewrites) (b : BoundMarks) (d refined : DeclId) (x : Declaration) (type : TypeId) :
    Ground :=
  if x.isFunctionalParameter && !c.policy.createsMethod c.program d then .own false
  else if refined ≠ d then .other refined
  else c.ownGround r b d x type

/-- Only the answers about bounds matter. -/
theorem ground_congr {b b' : BoundMarks} (h : SameAnswers c.policy c.program b b') (r : Rewrites)
    (d refined : DeclId) (x : Declaration) (type : TypeId) :
    c.ground r b' d refined x type = c.ground r b d refined x type := by
  have he : c.erasesBy b' type = c.erasesBy b type := by
    unfold erasesBy
    split
    · next e _ => rw [h e]
    · rfl
  simp only [ground, ownGround, he]

end Context

/-- From `s` to `s'` no decision changed and no answer about a bound. -/
structure Alike (c : Context) (s s' : Decisions) : Prop where
  unboxed : ∀ d, s'.marks.unboxed d = s.marks.unboxed d
  answers : SameAnswers c.policy c.program s.marks.bounds s'.marks.bounds
  rewrites : s'.rewrites = s.rewrites
  pending : s'.pending = s.pending

namespace Alike
variable {c : Context} {s s' s'' : Decisions}

theorem refl (s : Decisions) : Alike c s s := ⟨fun _ => rfl, .refl _, rfl, rfl⟩

theorem trans (h : Alike c s s') (h' : Alike c s' s'') : Alike c s s'' :=
  ⟨fun d => (h'.unboxed d).trans (h.unboxed d), h.answers.trans h'.answers,
    h'.rewrites.trans h.rewrites, h'.pending.trans h.pending⟩

end Alike

namespace Context
open Decide
variable {c : Context} {s : Decisions}

theorem inheritUnderlying_alike (d refined : DeclId) (type : TypeId) :
    Alike c s (after (c.inheritUnderlying d refined type) s) := by
  unfold inheritUnderlying
  rw [after_bind, result_get]
  dsimp only
  split
  · rw [lookup, lookupAt, after_bind, result_ofExcept, after_ofExcept]
    cases c.program.decl refined .unknown with
    | error e => exact .refl s
    | ok r =>
      dsimp only
      rw [after_bind, result_get]
      dsimp only
      split
      · exact ⟨fun _ => rfl, .refl _, rfl, rfl⟩
      · exact .refl s
  · exact .refl s

/-- The question about the bounds of the type, with its answer. -/
theorem isErasedTypeParameter_spec (t : TypeId) :
    result (c.isErasedTypeParameter t) s = .ok (c.erasesBy s.marks.bounds t) ∧
      Alike c s (after (c.isErasedTypeParameter t) s) := by
  unfold isErasedTypeParameter erasesBy
  cases c.program.form? t with
  | none => exact ⟨rfl, .refl s⟩
  | some form =>
    cases form with
    | typeParameter d => exact ⟨rfl, fun _ => rfl, (Steady.keepsBound d).keeps _, rfl, rfl⟩
    | _ => exact ⟨rfl, .refl s⟩

theorem isNested_of_ok {x : Declaration} {nested : Bool}
    (h : c.program.inFunctionalParameter x = .ok nested) : nested = c.isNested x := by
  unfold Program.inFunctionalParameter at h
  unfold isNested Program.container?
  cases ho : x.scope.declaration? with
  | none =>
    rw [ho] at h
    exact (Except.ok.inj h).symm
  | some owner =>
    rw [ho] at h
    dsimp only at h
    cases hy : c.program.decl owner x.location with
    | error e =>
      rw [hy] at h
      cases h
    | ok y =>
      rw [hy] at h
      have hy' := Program.decl_eq_ok_iff.mp hy
      simpa [hy'] using (Except.ok.inj h).symm

theorem parameterized_eq_ok {d f : DeclId} {x : Declaration}
    (h : c.program.parameterized d x = .ok f) : x.scope.declaration? = some f := by
  unfold Program.parameterized at h
  split at h
  · next ho => rw [ho, Except.ok.inj h]
  · cases h

/-! ## The verdict is what the ground gives -/

section Verdict
variable {inherit : DeclId → Decide Unit} {v : Option Bool}

/-- The verdict `v` and what is left behind, on the given ground: a decision of its own changes nothing
else, another declaration is settled first. -/
inductive Concludes (c : Context) (inherit : DeclId → Decide Unit) (s : Decisions) :
    Ground → Option Bool → Decisions → Prop where
  | own {s' : Decisions} (b : Bool) (h : Alike c s s') : Concludes c inherit s (.own b) (some b) s'
  | other {s' s'' : Decisions} (z : DeclId) (h : Alike c s s') (hz : result (inherit z) s' = .ok ())
    (h' : Alike c (after (inherit z) s') s'') :
    Concludes c inherit s (.other z) (s''.marks.unboxed z) s''

theorem Concludes.of_alike {t t' : Decisions} {g : Ground} (h : Alike c s t)
    (hc : Concludes c inherit t g v t') : Concludes c inherit s g v t' := by
  cases hc with
  | own b h' => exact .own b (h.trans h')
  | other z h' hz h'' => exact .other z (h.trans h') hz h''

theorem inheritedFrom_concludes {z : DeclId} (h : result (c.inheritedFrom inherit z) s = .ok v) :
    Concludes c inherit s (.other z) v (after (c.inheritedFrom inherit z) s) := by
  unfold inheritedFrom at h ⊢
  obtain ⟨⟨⟩, hi, h⟩ := result_bind_eq_ok.mp h
  obtain ⟨⟨⟩, hc, h⟩ := result_bind_eq_ok.mp h
  obtain ⟨y, hy, h⟩ := result_bind_eq_ok.mp h
  rw [after_bind_of_ok hi, after_bind_of_ok hc, after_bind_of_ok hy]
  rw [lookup, lookupAt, after_ofExcept] at h ⊢
  obtain rfl := Except.ok.inj h
  exact .other z (.refl s) hi ⟨fun _ => rfl, .refl _, rfl, rfl⟩

theorem nestedVerdict_concludes {d f : DeclId} {type : TypeId}
    (h : result (c.nestedVerdict inherit d f type) s = .ok v) :
    Concludes c inherit s (c.nestedGround s.rewrites d f type) v
      (after (c.nestedVerdict inherit d f type) s) := by
  rw [nestedVerdict, result_topmost_bind] at h
  rw [nestedVerdict, after_topmost_bind, nestedGround]
  split
  · next hf =>
    rw [if_pos hf] at h
    obtain rfl := Except.ok.inj h
    exact .own _ (.refl s)
  · next hf =>
    rw [if_neg hf] at h
    exact inheritedFrom_concludes h

section
variable {d : DeclId} {x : Declaration} {type : TypeId}

theorem verdict_own_concludes (hx : c.program.decl? d = some x)
    (hf : ¬(x.isFunctionalParameter && !c.policy.createsMethod c.program d) = true)
    (h : result (c.verdict inherit d d type) s = .ok v) :
    Concludes c inherit s (c.ownGround s.rewrites s.marks.bounds d x type) v
      (after (c.verdict inherit d d type) s) := by
  unfold verdict at h ⊢
  rw [lookup_bind_of_decl? hx] at h ⊢
  rw [if_neg hf, if_neg (not_not_intro rfl)] at h ⊢
  obtain ⟨he, hs⟩ := isErasedTypeParameter_spec (c := c) (s := s) type
  rw [result_bind, he] at h
  rw [after_bind_of_ok he]
  refine .of_alike hs ?_
  have hrw := hs.rewrites
  dsimp only at h
  generalize after (c.isErasedTypeParameter type) s = u at h hrw ⊢
  obtain ⟨nested, hn, h⟩ := result_bind_eq_ok.mp h
  rw [after_bind_of_ok hn]
  rw [result_ofExcept] at hn
  rw [after_ofExcept] at h ⊢
  obtain rfl := isNested_of_ok hn
  unfold ownGround
  dsimp only at h ⊢
  split at h
  · next hv =>
    rw [if_pos hv, if_pos hv, ← Except.ok.inj h]
    exact .own false (.refl u)
  next hv =>
  rw [if_neg hv, if_neg hv]
  split at h
  · next hb =>
    rw [if_pos hb, if_pos hb, ← Except.ok.inj h]
    exact .own true (.refl u)
  next hb =>
  rw [if_neg hb, if_neg hb]
  split at h
  · next hp =>
    rw [if_pos hp, if_pos hp]
    obtain ⟨f, hf, h⟩ := result_bind_eq_ok.mp h
    rw [after_bind_of_ok hf]
    rw [result_ofExcept] at hf
    rw [after_ofExcept] at h ⊢
    rw [parameterized_eq_ok hf, Option.elim_some]
    split at h
    · next hm =>
      rw [if_pos hm, if_pos hm, ← hrw]
      exact nestedVerdict_concludes h
    · next hm =>
      rw [if_neg hm, if_neg hm, ← Except.ok.inj h]
      exact .own false (.refl u)
  · next hp =>
    rw [if_neg hp, if_neg hp, ← Except.ok.inj h]
    exact .own false (.refl u)

/-- A verdict that does not fail is the one that the ground gives. -/
theorem verdict_concludes {refined : DeclId} (hx : c.program.decl? d = some x)
    (h : result (c.verdict inherit d refined type) s = .ok v) :
    Concludes c inherit s (c.ground s.rewrites s.marks.bounds d refined x type) v
      (after (c.verdict inherit d refined type) s) := by
  unfold ground
  split
  · next hf =>
    unfold verdict at h ⊢
    rw [lookup_bind_of_decl? hx, if_pos hf] at h ⊢
    rw [← Except.ok.inj h]
    exact .own false (.refl s)
  next hf =>
  split
  · next hne =>
    unfold verdict at h ⊢
    rw [lookup_bind_of_decl? hx, if_neg hf, if_pos hne] at h ⊢
    exact inheritedFrom_concludes h
  · next hne =>
    obtain rfl : refined = d := not_not.mp hne
    exact verdict_own_concludes hx hf h

end

end Verdict

end Context

end Unbox
