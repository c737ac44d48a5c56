import Unbox.Proofs.Idempotence
import Unbox.Proofs.Totality
import Unbox.Proofs.Trails

/-!
# Places in parameter lists

A parameter of a method stands for the parameter at the same place of the method that is refined. That
place is looked up twice: once to find the topmost declaration, where lists of different lengths end
the search, and once to decide a parameter of a functional parameter, where they do not.

* `SameShape` : the lists have the same number and the same lengths;
* `Program.counterpart_ne_absent` : between lists of different shapes a search finds a counterpart or a
  mismatch;
* `Program.topmost_of_misshapen` : so a parameter stands for itself there, or for the counterpart that was
  found before the mismatch;
* `Context.unboxed_of_link` : a declaration that is settled has the flag of what its link leads to;
* `Context.ensure_nested` : how the parameters of a functional parameter that becomes a method are
  decided: if it refines nothing, by their own types; if it refines a method of another shape, like a
  parameter of that method or like the method itself;
* `Context.misshapen_inherits` : two methods of different shapes, where that makes a difference.
-/

namespace Unbox

/-- The lists have the same number and the same lengths. -/
def SameShape (ass bss : List (List DeclId)) : Prop := ass.map List.length = bss.map List.length

instance (ass bss : List (List DeclId)) : Decidable (SameShape ass bss) := by
  unfold SameShape
  infer_instance

namespace Program
variable {p : Program} {policy : Policy} {r : Rewrites} {limit : Nat} {d f g : DeclId}
  {x y z : Declaration}

/-- By recursion on both lists: a search that is not ended by a mismatch has passed lists of the same
lengths only. -/
theorem counterpart_ne_absent {ass bss : List (List DeclId)} (hl : ass.length = bss.length)
    (h : ¬ SameShape ass bss) : counterpart d ass bss ≠ .absent := by
  fun_induction counterpart d ass bss with
  | case1 | case2 =>
    intro h
    cases h
  | case3 as ass bs bss hlen _ ih =>
    refine ih (by simpa using hl) fun hs => h ?_
    simp only [SameShape, List.map_cons, not_not.mp hlen] at hs ⊢
    rw [hs]
  | case4 ass bss hcons =>
    intro
    cases ass with
    | nil =>
      cases bss with
      | nil => exact h rfl
      | cons => cases hl
    | cons as ass =>
      cases bss with
      | nil => cases hl
      | cons bs bss => exact hcons as ass bs bss rfl rfl

/-! ## The topmost declaration of a parameter of a method -/

theorem resolved_of_topmost_ne (h : p.topmost policy limit r d ≠ d) :
    p.resolved policy r (max limit 1) [] d = some (p.topmost policy limit r d) := by
  rw [topmost_eq] at h ⊢
  cases hr : p.resolved policy r (max limit 1) [] d with
  | none =>
    rw [hr] at h
    exact absurd rfl h
  | some e => rfl

theorem topmost_of_resolved {e : DeclId} (h : p.resolved policy r (max limit 1) [] d = some e) :
    p.topmost policy limit r d = e := by
  rw [topmost_eq, h, Option.getD_some]

/-- A parameter of a method is resolved by the topmost declaration of the method. -/
theorem resolved_of_asked {room : Nat} {path : List DeclId} (hx : p.decl? d = some x)
    (hf : p.askedMethod? policy x = some f) (hd : d ∉ path) :
    p.resolved policy r (room + 1) path d =
      (p.resolved policy r room (d :: path) f).bind fun g =>
        (p.methodParameter d f g).target (p.resolved policy r room (d :: path)) := by
  have hc : ¬ path.contains d = true := fun h => hd (List.contains_iff_mem.mp h)
  rw [resolved, if_neg hc]
  simp only [hx, hf]
  cases p.resolved policy r room (d :: path) f with
  | none => rfl
  | some g => rfl

/-- A parameter of a method that is resolved at all is resolved by the standing that it has by the
topmost declaration of the method; what that refers to has the same topmost declaration. -/
theorem exists_of_resolved_asked {e : DeclId} (hx : p.decl? d = some x)
    (hf : p.askedMethod? policy x = some f)
    (h : p.resolved policy r (max limit 1) [] d = some e) :
    p.resolved policy r (max limit 1) [] f = some (p.topmost policy limit r f) ∧
      (p.methodParameter d f (p.topmost policy limit r f)).target
        (p.resolved policy r (max limit 1) []) = some e := by
  obtain ⟨room, hroom⟩ : ∃ room, max limit 1 = room + 1 := ⟨max limit 1 - 1, by omega⟩
  rw [hroom, resolved_of_asked hx hf List.not_mem_nil] at h
  obtain ⟨g, hg, ht⟩ := Option.bind_eq_some_iff.mp h
  have widen {a b : DeclId} (ha : p.resolved policy r room [d] a = some b) :
      p.resolved policy r (max limit 1) [] a = some b :=
    resolved_mono ha (by omega) (List.nil_subset _)
  have hgf := topmost_of_resolved (widen hg)
  refine ⟨hgf ▸ widen hg, ?_⟩
  rw [hgf]
  cases hs : p.methodParameter d f g with
  | settled a =>
    rw [hs] at ht
    exact ht
  | like a =>
    rw [hs] at ht
    exact widen ht

/-- A parameter of a method that is its own topmost declaration is its own one too. -/
theorem topmost_of_asked_self (hx : p.decl? d = some x) (hf : p.askedMethod? policy x = some f)
    (hg : p.topmost policy limit r f = f) : p.topmost policy limit r d = d := by
  by_contra hne
  have h := (exists_of_resolved_asked hx hf (resolved_of_topmost_ne hne)).2
  rw [hg, methodParameter, if_pos rfl] at h
  exact hne (Option.some.inj h).symm

/-- A parameter of a method that refines one of another shape stands for itself, unless a counterpart
comes before the lists that differ in length. -/
theorem topmost_of_misshapen (hx : p.decl? d = some x) (hf : p.askedMethod? policy x = some f)
    (hy : p.decl? f = some y) (hz : p.decl? (p.topmost policy limit r f) = some z)
    (hs : ¬ SameShape y.parameterLists z.parameterLists) :
    p.topmost policy limit r d = d ∨
      ∃ q, counterpart d y.parameterLists z.parameterLists = .found q ∧
        p.topmost policy limit r d = p.topmost policy limit r q := by
  by_cases hne : p.topmost policy limit r d = d
  · exact .inl hne
  refine .inr ?_
  have h := (exists_of_resolved_asked hx hf (resolved_of_topmost_ne hne)).2
  have settled (h : (Standing.settled d).target (p.resolved policy r (max limit 1) []) =
      some (p.topmost policy limit r d)) : False := hne (Option.some.inj h).symm
  unfold methodParameter at h
  split at h
  · exact (settled h).elim
  simp only [hy, hz] at h
  split at h
  · exact (settled h).elim
  next hfun =>
  have hlen : y.parameterLists.length = z.parameterLists.length := by simp_all
  cases hc : counterpart d y.parameterLists z.parameterLists with
  | found q =>
    rw [hc] at h
    exact ⟨q, rfl, (topmost_of_resolved h).symm⟩
  | mismatch =>
    rw [hc] at h
    exact (settled h).elim
  | absent => exact absurd hc (counterpart_ne_absent hlen hs)

end Program

/-! ## Parameters of functional parameters -/

namespace Context
open Decide
variable {c : Context} {r : Rewrites} {d e f : DeclId} {x y : Declaration} {type : TypeId}
  {s : Decisions}

/-- A declaration that is settled has the flag of what its link leads to. -/
theorem unboxed_of_link {z : DeclId} (hp : s.pending = []) (hx : c.program.decl? d = some x)
    (ht : x.type = some type) (hu : s.marks.unboxed d = none) (hc : c.isCallable d x = false)
    (hl : c.link? s.rewrites e d x = some z) (h : result (c.settle d e) s = .ok ()) :
    (after (c.settle d e) s).marks.unboxed d = (after (c.settle d e) s).marks.unboxed z := by
  obtain ⟨passed, v, htrail, harrives⟩ := exists_trail_of_settle hp h
  rw [harrives.unboxed_eq htrail (.nil _)]
  cases htrail with
  | again hs => cases hs
  | decided _ hb => cases hu.symm.trans hb
  | untyped _ _ hx' hn =>
    cases hx.symm.trans hx'
    cases ht.symm.trans hn
  | callable _ _ hx' _ hc' =>
    cases hx.symm.trans hx'
    cases hc.symm.trans hc'
  | own _ _ hx' _ _ hl' =>
    cases hx.symm.trans hx'
    cases hl.symm.trans hl'
  | @step _ _ _ w _ _ passed _ _ _ hx' _ _ hl' hrest =>
    cases hx.symm.trans hx'
    cases hl.symm.trans hl'
    by_cases hz : z ∈ d :: passed
    · exact (harrives.reached z hz).symm
    · rcases hrest.eq_unboxed_or_mem (List.forall_mem_singleton.mpr hu) with hv | hmem
      · rw [harrives.frame z hz, hv]
      · exact absurd (List.mem_cons_of_mem d hmem) hz

/-- A declaration without a link has the flag that its own type gives. -/
theorem unboxed_of_no_link (hp : s.pending = []) (hx : c.program.decl? d = some x)
    (ht : x.type = some type) (hu : s.marks.unboxed d = none) (hc : c.isCallable d x = false)
    (hl : c.link? s.rewrites e d x = none) (h : result (c.settle d e) s = .ok ()) :
    (after (c.settle d e) s).marks.unboxed d = some (c.ownRule s.marks.bounds d x type) := by
  obtain ⟨passed, v, htrail, harrives⟩ := exists_trail_of_settle hp h
  rw [harrives.unboxed_eq htrail (.nil _)]
  obtain ⟨-, rfl⟩ := htrail.unique (.own List.not_mem_nil hu hx ht hc hl)
  rfl

/-- `d` is a value parameter, with a type, of the method `f`. -/
structure ParameterOf (c : Context) (f d : DeclId) (y x : Declaration) (type : TypeId) : Prop where
  function : c.program.decl? f = some y
  isMethod : y.isMethod = true
  parameter : c.program.decl? d = some x
  value : x.isValueParameter = true
  scope : x.scope = .declaration f
  typed : x.type = some type

namespace ParameterOf

theorem isValue (h : c.ParameterOf f d y x type) : x.isValue = true :=
  (Bool.and_eq_true_iff.mp h.value).1

theorem isParameter (h : c.ParameterOf f d y x type) : x.isParameter = true :=
  (Bool.and_eq_true_iff.mp h.value).2

theorem not_isMethod (h : c.ParameterOf f d y x type) : x.isMethod = false := by
  have hv := h.isValue
  unfold Declaration.isValue at hv
  unfold Declaration.isMethod
  cases hk : x.kind <;> simp_all

theorem not_isClass (h : c.ParameterOf f d y x type) : y.isClass = false := by
  have hm := h.isMethod
  unfold Declaration.isMethod at hm
  unfold Declaration.isClass
  cases hk : y.kind <;> simp_all

theorem isCallable (h : c.ParameterOf f d y x type) : c.isCallable d x = false := by
  simp [Context.isCallable, Declaration.isFunctionalParameter, h.not_isMethod]

theorem pointer? (h : c.ParameterOf f d y x type) : c.pointer? d x = none := by
  simp [Context.pointer?, h.scope, h.function, h.not_isClass]

theorem askedMethod? (h : c.ParameterOf f d y x type)
    (hm : y.isParameter = false ∨ c.policy.createsMethod c.program f = true) :
    c.program.askedMethod? c.policy x = some f := by
  have hm : (!y.isParameter || c.policy.createsMethod c.program f) = true := by
    rcases hm with hm | hm <;> simp [hm]
  simp [Program.askedMethod?, Program.owningClass?, Program.isMethodParameter, h.isValue,
    h.isParameter, h.scope, h.function, h.not_isClass, h.isMethod, hm, Scope.declaration?]

end ParameterOf

/-- `d` is a value parameter, with a type, of the functional parameter `f`, which becomes a method. -/
structure Nested (c : Context) (f d : DeclId) (y x : Declaration) (type : TypeId) : Prop
    extends c.ParameterOf f d y x type where
  functional : y.isParameter = true
  becomes : c.policy.createsMethod c.program f = true

namespace Nested

theorem isNested (h : c.Nested f d y x type) : c.isNested x = true := by
  simp [Context.isNested, Program.container?, h.scope, Scope.declaration?, h.function,
    Declaration.isFunctionalParameter, h.isMethod, h.functional]

theorem asked (h : c.Nested f d y x type) : c.program.askedMethod? c.policy x = some f :=
  h.askedMethod? (.inr h.becomes)

/-- A parameter of a functional parameter that refines nothing has no link. -/
theorem link?_of_self (h : c.Nested f d y x type) (hf : c.topUnder r f = f) :
    c.link? r d d x = none := by
  simp [Context.link?, h.pointer?, Context.counterpart?, h.scope, Scope.declaration?, hf]

/-- One of a functional parameter that refines another method is decided as the parameter at its place
there, or else as that method. -/
theorem link?_of_ne (h : c.Nested f d y x type) (hf : c.topUnder r f ≠ f) :
    c.link? r d d x =
      some ((c.positionalCounterpart f (c.topUnder r f) d).getD (c.topUnder r f)) := by
  simp [Context.link?, h.pointer?, Context.counterpart?, h.value, h.isNested, h.scope,
    Scope.declaration?, h.becomes, hf]

theorem ownRule (h : c.Nested f d y x type) (b : BoundMarks) :
    c.ownRule b d x type =
      !(c.policy.isAnything c.program type || c.policy.isOptional c.program type) := by
  simp [Context.ownRule, h.not_isMethod, h.isNested, h.value, h.scope, Scope.declaration?, h.becomes]

end Nested

/-- A request for an undecided parameter of a functional parameter that becomes a method succeeds in a
closed program. If the functional parameter refines nothing, the parameter is decided by its own type.
If it refines a method of another shape, the parameter has the flag of that method's parameter at its
place or, if there is none, of the method itself; unless its place comes before the lists that differ in
length: then it has the flag of the topmost declaration of its counterpart. -/
theorem ensure_nested (h : c.Nested f d y x type) (hp : s.pending = [])
    (hu : s.marks.unboxed d = none) :
    let g := c.topUnder s.rewrites f
    let top := c.topUnder s.rewrites d
    let decided := (after (c.ensure d) s).marks
    (c.program.Closed → s.rewrites.Within c.program → result (c.ensure d) s = .ok ()) ∧
      (result (c.ensure d) s = .ok () →
        (g = f → decided.unboxed d =
          some !(c.policy.isAnything c.program type || c.policy.isOptional c.program type)) ∧
        (g ≠ f → ∀ z, c.program.decl? g = some z →
          ¬ SameShape y.parameterLists z.parameterLists →
          (top = d ∧
            decided.unboxed d = decided.unboxed ((c.positionalCounterpart f g d).getD g)) ∨
          ∃ q, Program.counterpart d y.parameterLists z.parameterLists = .found q ∧
            top = c.topUnder s.rewrites q ∧ decided.unboxed d = decided.unboxed top)) := by
  intro g top decided
  have hm (h' : x.isMethod = true) : x.name.isSome = true ∧
      (c.program.decl? (c.topUnder s.rewrites d)).any Declaration.isMethod = true :=
    nomatch h.not_isMethod.symm.trans h'
  obtain ⟨hrun, hafter⟩ := ensure_run (s := s) h.parameter hm
  refine ⟨fun hclosed hwithin => ?_, fun hok => ?_⟩
  · have hd := Program.hasDecl_of_decl? h.parameter
    obtain ⟨⟨⟨⟩, hok⟩, -⟩ := Passes.settle hclosed hd (hclosed.topmost hwithin c.limit hd) s hwithin
    exact hrun.trans hok
  replace hok : result (c.settle d top) s = .ok () := hrun.symm.trans hok
  have hdecided : decided = (after (c.settle d top) s).marks := congrArg Decisions.marks hafter
  rw [hdecided]
  refine ⟨fun hg => ?_, fun hg z hz hs => ?_⟩
  · have htop : top = d := Program.topmost_of_asked_self h.parameter h.asked hg
    rw [htop] at hok ⊢
    rw [unboxed_of_no_link hp h.parameter h.typed hu h.isCallable (h.link?_of_self hg) hok, h.ownRule]
  · by_cases htop : top = d
    · refine .inl ⟨htop, ?_⟩
      rw [htop] at hok ⊢
      exact unboxed_of_link hp h.parameter h.typed hu h.isCallable (h.link?_of_ne hg) hok
    · rcases Program.topmost_of_misshapen h.parameter h.asked h.function hz hs with
        htop' | ⟨q, hq, htop'⟩
      · exact absurd htop' htop
      · refine .inr ⟨q, hq, htop', ?_⟩
        have hl : c.link? s.rewrites top d x = some top := if_pos htop
        exact unboxed_of_link hp h.parameter h.typed hu h.isCallable hl hok

end Context

/-! ## A functional parameter with fewer parameters than the one it stands for -/

/-- A class (2) with a functional parameter (3) that takes two parameters of the top type (4 and 5), and
a class (6), an alias of the first one if `renames` says so, with a functional parameter (7) that takes
one integer (8). -/
def Program.misshapen (renames : Bool) : Program where
  decls := #[
    { name := some ⟨0⟩, kind := .classType {}, scope := .unit },
    { name := some ⟨1⟩, kind := .classType {}, scope := .unit },
    { name := some ⟨2⟩, kind := .classType { list := some [⟨3⟩], members := [⟨3⟩] }, scope := .unit },
    { name := some ⟨4⟩, kind := .method { lists := [[⟨4⟩, ⟨5⟩]] }, scope := .declaration ⟨2⟩,
      type := some ⟨1⟩, modifiers := ⟨[.shared, .parameter]⟩ },
    { name := some ⟨5⟩, kind := .value, scope := .declaration ⟨3⟩, type := some ⟨0⟩,
      modifiers := ⟨[.parameter]⟩ },
    { name := some ⟨6⟩, kind := .value, scope := .declaration ⟨3⟩, type := some ⟨0⟩,
      modifiers := ⟨[.parameter]⟩ },
    { name := some ⟨3⟩,
      kind := .classType { list := some [⟨7⟩], extended := some ⟨2⟩, members := [⟨7⟩] },
      scope := .unit, modifiers := ⟨if renames then [.synonym] else []⟩ },
    { name := some ⟨7⟩, kind := .method { lists := [[⟨8⟩]] }, scope := .declaration ⟨6⟩,
      type := some ⟨1⟩, modifiers := ⟨[.shared, .parameter]⟩ },
    { name := some ⟨8⟩, kind := .value, scope := .declaration ⟨7⟩, type := some ⟨1⟩,
      modifiers := ⟨[.parameter]⟩ }]
  types := #[.nominal ⟨0⟩ [], .nominal ⟨1⟩ [], .nominal ⟨2⟩ []]
  core := ⟨⟨0⟩, ⟨0⟩, ⟨0⟩, ⟨0⟩, ⟨1⟩, ⟨1⟩, ⟨1⟩, ⟨1⟩, ⟨1⟩, ⟨1⟩, ⟨1⟩, ⟨1⟩, ⟨0⟩, ⟨0⟩, ⟨0⟩⟩

namespace Context
open Decide

/-- The integer has the flag of the first of the two parameters. -/
theorem ensure_nested_misshapen :
    let c : Context := ⟨⟨.misshapen true, .standard⟩, 8⟩
    let decided := (after (c.ensure ⟨8⟩) { marks := {} }).marks
    (∃ y x, c.Nested ⟨7⟩ ⟨8⟩ y x ⟨1⟩) ∧ decided.unboxed ⟨8⟩ = decided.unboxed ⟨4⟩ := by
  intro c decided
  have h : c.Nested ⟨7⟩ ⟨8⟩ _ _ ⟨1⟩ := ⟨⟨rfl, rfl, rfl, rfl, rfl, rfl⟩, rfl, rfl⟩
  have htop : c.topUnder {} ⟨7⟩ = ⟨3⟩ := by decide +kernel
  obtain ⟨-, hdecided⟩ := ensure_nested (s := { marks := {} }) h rfl rfl
  obtain ⟨-, hother⟩ := hdecided (by decide +kernel)
  rw [htop] at hother
  refine ⟨⟨_, _, h⟩, ?_⟩
  rcases hother (by decide) _ rfl (by decide) with ⟨-, heq⟩ | ⟨q, hq, -⟩
  · exact heq
  · cases hq

/-- A functional parameter that stands for one with more parameters does not count as one that refines
nothing: the integer is boxed like the first of those parameters, although it is unboxed if the class
is no alias. -/
theorem misshapen_inherits :
    let c : Context := ⟨⟨.misshapen true, .standard⟩, 8⟩
    let alone : Context := ⟨⟨.misshapen false, .standard⟩, 8⟩
    let decided := (after (c.ensure ⟨8⟩) { marks := {} }).marks
    (∃ y x, c.Nested ⟨7⟩ ⟨8⟩ y x ⟨1⟩) ∧ (∃ y x, alone.Nested ⟨7⟩ ⟨8⟩ y x ⟨1⟩) ∧
      c.topUnder {} ⟨7⟩ = ⟨3⟩ ∧ ¬ SameShape [[⟨8⟩]] [[⟨4⟩, ⟨5⟩]] ∧ alone.topUnder {} ⟨7⟩ = ⟨7⟩ ∧
      decided.unboxed ⟨8⟩ = some false ∧ decided.unboxed ⟨4⟩ = some false ∧
      (after (alone.ensure ⟨8⟩) { marks := {} }).marks.unboxed ⟨8⟩ = some true := by
  refine ⟨⟨_, _, ⟨rfl, rfl, rfl, rfl, rfl, rfl⟩, rfl, rfl⟩,
    ⟨_, _, ⟨rfl, rfl, rfl, rfl, rfl, rfl⟩, rfl, rfl⟩, ?_⟩
  decide +kernel

end Context

end Unbox
