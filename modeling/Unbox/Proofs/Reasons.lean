import Unbox.Proofs.Grounds

/-!
# Reasons to unbox

* `Decide.Maintains Q act` : `act` leaves `Q` true, whether it fails or not; one lemma for each way
  to build a step;
* `Context.OwnReason r d` : the own type of `d` is a reason to unbox it;
* `Context.Inherits r d e` : `d` takes its decision from `e`;
* `Context.reason_of_ground` : there is no other ground for a decision;
* `Context.Admits r P J` : what is known about the marks, `P`, is left true by every decision that
  `J` justifies;
* `Admits.maintains_settle` : then it is left true by settling;
* `Allows.maintains_act` : and by an act, if it is by what the act forces and notes;
* `Context.maintains_decideUnit` : so it is left true by a walk that takes only such acts.
-/

namespace Unbox

/-! ## Invariants of what may fail -/

namespace Decide
variable {α β : Type} {Q : Marks → Rewrites → Prop}

/-- `Q` stays true of the marks and of the rewrites in force, whether `act` fails or not. -/
def Maintains (Q : Marks → Rewrites → Prop) (act : Decide α) : Prop :=
  ∀ s, Q s.marks s.rewrites → Q (after act s).marks (after act s).rewrites

theorem Follows.maintains {W : Marks → Marks → Prop} {act : Decide α} (h : Follows W act)
    (hQ : ∀ m m' r, W m m' → Q m r → Q m' r) : Maintains Q act := by
  intro s hs
  rw [(h s).rewrites]
  exact (h s).preserves (fun m m' => hQ m m' s.rewrites) hs

namespace Maintains

theorem pure (a : α) : Maintains Q (Pure.pure a) := fun _ hs => hs

theorem count (f : DeclarationStats → DeclarationStats) : Maintains Q (count f) := fun _ hs => hs

theorem unboxed (d : DeclId) : Maintains Q (unboxed d) := fun _ hs => hs

theorem get : Maintains Q (MonadState.get : Decide Decisions) := fun _ hs => hs

theorem modifyMarks {f : Marks → Marks} (h : ∀ m r, Q m r → Q (f m) r) :
    Maintains Q (modifyMarks f) := fun s hs => h s.marks s.rewrites hs

theorem ofExcept (e : Except Failure α) : Maintains Q (MonadExcept.ofExcept e : Decide α) := by
  intro s hs
  rwa [after_ofExcept]

theorem bind {x : Decide α} {f : α → Decide β} (hx : Maintains Q x)
    (hf : ∀ a, Maintains Q (f a)) : Maintains Q (x >>= f) := by
  intro s hs
  rw [after_bind]
  cases result x s with
  | ok a => exact hf a _ (hx s hs)
  | error e => exact hx s hs

theorem ite {p : Prop} [Decidable p] {x y : Decide α} (hx : p → Maintains Q x)
    (hy : ¬ p → Maintains Q y) : Maintains Q (if p then x else y) := by
  split
  · next h => exact hx h
  · next h => exact hy h

theorem forM {f : α → Decide Unit} {as : List α} (h : ∀ a ∈ as, Maintains Q (f a)) :
    Maintains Q (as.forM f) := by
  induction as with
  | nil => exact pure ()
  | cons a as ih =>
    rw [List.forM_eq_forM, List.forM_cons]
    exact bind (h a List.mem_cons_self) fun _ => ih fun b hb => h b (List.mem_cons_of_mem a hb)

theorem deciding {act : Decide α} (d : DeclId) (h : Maintains Q act) :
    Maintains Q (deciding d act) := fun s hs => h { s with pending := d :: s.pending } hs

/-- A single write may undo it for a while, unlike in `Decide.holds_of_forM`. -/
theorem holds_of_forM {f : α → Decide Unit} {as : List α} {a : α} {s : Decisions}
    (h : ∀ b ∈ as, Maintains Q (f b)) (hr : ∀ b ∈ as, ∀ s, (after (f b) s).rewrites = s.rewrites)
    (ha : a ∈ as) (holds : ∀ s', s'.rewrites = s.rewrites → result (f a) s' = .ok () →
      Q (after (f a) s').marks (after (f a) s').rewrites)
    (hok : result (as.forM f) s = .ok ()) :
    Q (after (as.forM f) s).marks (after (as.forM f) s).rewrites :=
  holds_after_forM (P := fun s' => Q s'.marks s'.rewrites) (I := fun s' => s'.rewrites = s.rewrites) h
    (fun b hb s' hs' => (hr b hb s').trans hs') holds (.inr ⟨rfl, ha⟩) hok

variable {c : Context}

theorem lookupAt_bind {l : Location} {d : DeclId} {f : Declaration → Decide β}
    (h : ∀ x, c.program.decl? d = some x → Maintains Q (f x)) :
    Maintains Q (c.lookupAt l d >>= f) := by
  intro s hs
  rw [Context.lookupAt, after_bind, result_ofExcept, after_ofExcept]
  cases hx : c.program.decl d l with
  | ok x => exact h x (Program.decl_eq_ok_iff.mp hx) s hs
  | error e => exact hs

theorem lookup_bind {d : DeclId} {f : Declaration → Decide β}
    (h : ∀ x, c.program.decl? d = some x → Maintains Q (f x)) : Maintains Q (c.lookup d >>= f) :=
  lookupAt_bind h

theorem topmost_bind {d : DeclId} {f : DeclId → Decide β}
    (h : ∀ m r, Q m r → Maintains Q (f (c.program.topmost c.policy c.limit r d))) :
    Maintains Q (c.topmost d >>= f) := by
  intro s hs
  rw [Context.after_topmost_bind]
  exact h s.marks s.rewrites hs s hs

end Maintains

end Decide

/-! ## What a decision is taken from -/

namespace Context
open Decide
variable (c : Context)

/-- The own type of `d` is a reason to unbox it, under the rewrites `r`. -/
inductive OwnReason (r : Rewrites) (d : DeclId) : Prop where
  /-- A basic type, or no result at all. -/
  | plain {x : Declaration} {type : TypeId} (hx : c.program.decl? d = some x)
    (ht : x.type = some type)
    (hb : c.policy.isBasic c.program type = true ∨ c.policy.isUnboxedVoid c.program d = true)
    (hl : x.parameterLists.length ≤ 1) (hn : c.isNested x = false)
  /-- A value parameter of a functional parameter that becomes a method and refines no other one. -/
  | nested {x y : Declaration} {type : TypeId} {function : DeclId}
    (hx : c.program.decl? d = some x) (ht : x.type = some type) (hv : x.isValueParameter = true)
    (hs : x.scope.declaration? = some function) (hy : c.program.decl? function = some y)
    (hf : y.isFunctionalParameter = true) (hm : c.policy.createsMethod c.program function = true)
    (htop : c.program.topmost c.policy c.limit r function = function)
    (ha : c.policy.isAnything c.program type = false)
    (ho : c.policy.isOptional c.program type = false)

/-- `d` takes its decision from `e`, under the rewrites `r`. -/
inductive Inherits (r : Rewrites) (d : DeclId) : DeclId → Prop where
  | topmost : Inherits r d (c.program.topmost c.policy c.limit r d)
  /-- A class parameter stands for what it refines. -/
  | pointer {e : DeclId} (h : c.program.StandsFor d e) : Inherits r d e
  /-- A value parameter of a functional parameter that becomes a method stands for its counterpart
  in the method refined, or else for that method. -/
  | counterpart {x y : Declaration} {function refined : DeclId} (hx : c.program.decl? d = some x)
    (hv : x.isValueParameter = true) (hs : x.scope.declaration? = some function)
    (hy : c.program.decl? function = some y) (hf : y.isFunctionalParameter = true)
    (hm : c.policy.createsMethod c.program function = true)
    (htop : refined = c.program.topmost c.policy c.limit r function) (hne : refined ≠ function) :
    Inherits r d ((c.positionalCounterpart function refined d).getD refined)

variable {c} {r : Rewrites} {b : BoundMarks} {d refined : DeclId} {x : Declaration} {type : TypeId}

/-- What is declared in a functional parameter has that for its scope. -/
theorem exists_of_isNested (h : c.isNested x = true) : ∃ function y,
    x.scope.declaration? = some function ∧ c.program.decl? function = some y ∧
      y.isFunctionalParameter = true := by
  unfold isNested Program.container? at h
  cases hs : x.scope.declaration? with
  | none => simp [hs] at h
  | some function =>
    cases hy : c.program.decl? function with
    | none => simp [hs, hy] at h
    | some y => exact ⟨function, y, rfl, hy, by simpa [hs, hy] using h⟩

/-- A declaration that is decided by its own type has a reason to be unboxed, if it is; otherwise it
is a parameter that takes its decision from a counterpart. -/
theorem reason_of_ownGround (r : Rewrites) (b : BoundMarks) (hx : c.program.decl? d = some x)
    (ht : x.type = some type) :
    (c.ownGround r b d x type = .own true → c.OwnReason r d) ∧
      ∀ e, c.ownGround r b d x type = .other e → c.Inherits r d e := by
  have boxed : (Ground.own false = .own true → c.OwnReason r d) ∧
      ∀ e, Ground.own false = .other e → c.Inherits r d e := ⟨nofun, nofun⟩
  unfold ownGround
  dsimp only
  split
  · exact boxed
  split
  · next h =>
    simp only [Bool.and_eq_true, Bool.or_eq_true, Bool.not_eq_true'] at h
    obtain ⟨hb, ⟨-, hn⟩, hl⟩ := h
    refine ⟨fun _ => .plain hx ht hb ?_ hn, nofun⟩
    simpa [Declaration.hasSeveralLists] using hl
  split
  · next h =>
    obtain ⟨hv, hn⟩ := Bool.and_eq_true_iff.mp h
    obtain ⟨function, y, hs, hy, hf⟩ := exists_of_isNested hn
    rw [hs, Option.elim_some]
    split
    · next hm =>
      unfold nestedGround
      dsimp only
      split
      · next htop =>
        refine ⟨fun h => ?_, nofun⟩
        have hself := Ground.own.inj h
        simp only [Bool.not_eq_true', Bool.or_eq_false_iff] at hself
        exact .nested hx ht hv hs hy hf hm htop hself.1 hself.2
      · next hne =>
        refine ⟨nofun, fun e he => ?_⟩
        obtain rfl := Ground.other.inj he
        exact .counterpart hx hv hs hy hf hm rfl hne
    · exact boxed
  · exact boxed

theorem reason_of_ground (r : Rewrites) (b : BoundMarks) (refined : DeclId)
    (hx : c.program.decl? d = some x) (ht : x.type = some type) :
    (c.ground r b d refined x type = .own true → c.OwnReason r d) ∧
      ∀ e, c.ground r b d refined x type = .other e →
        (e = refined ∧ refined ≠ d) ∨ c.Inherits r d e := by
  unfold ground
  split
  · exact ⟨nofun, nofun⟩
  split
  · next hne => exact ⟨nofun, fun e he => .inl ⟨(Ground.other.inj he).symm, hne⟩⟩
  · obtain ⟨hown, hother⟩ := reason_of_ownGround r b hx ht
    exact ⟨hown, fun e he => .inr (hother e he)⟩

/-! ## Settling -/

/-- What is known about the marks, `P`, stays true when a declaration is decided, if `J` justifies
the decision; what is unboxed is justified, and so is what has a reason, its own or another's. -/
structure Admits (c : Context) (r : Rewrites) (P : Marks → Prop) (J : DeclId → Prop) : Prop where
  unboxed : ∀ m d, P m → m.unboxed d = some true → J d
  decide : ∀ m d b, P m → (b = true → J d) → P (m.setUnboxed d b)
  underlying : ∀ m a u, P m → P (m.setUnderlying a u)
  bounds : ∀ m d, P m → P { m with bounds := (c.policy.keepsBound c.program d m.bounds).2 }
  own : ∀ d, c.OwnReason r d → J d
  inherits : ∀ d e, c.Inherits r d e → J e → J d

section Settle
variable {P : Marks → Prop} {J : DeclId → Prop} {inherit : DeclId → Decide Unit}

/-- `P` holds of the marks while the rewrites `r` are in force. -/
def Under (r : Rewrites) (P : Marks → Prop) (m : Marks) (r' : Rewrites) : Prop := r' = r ∧ P m

theorem Admits.maintains_keepsBound (h : c.Admits r P J) (d : DeclId) :
    Maintains (Under r P) (askBounds (c.policy.keepsBound c.program d)) :=
  fun s ⟨hr, hs⟩ => ⟨hr, h.bounds s.marks d hs⟩

theorem Admits.maintains_isErasedTypeParameter (h : c.Admits r P J) (t : TypeId) :
    Maintains (Under r P) (c.isErasedTypeParameter t) := by
  unfold isErasedTypeParameter
  split
  · next e _ =>
    exact .bind (h.maintains_keepsBound e) fun _ => .pure _
  · exact .pure _

theorem Admits.maintains_inheritUnderlying (h : c.Admits r P J) (d refined : DeclId)
    (type : TypeId) : Maintains (Under r P) (c.inheritUnderlying d refined type) := by
  unfold inheritUnderlying
  refine .bind .get fun s => .ite (fun _ => ?_) fun _ => .pure _
  refine .lookup_bind fun x _ => .bind .get fun s => .ite (fun _ => ?_) fun _ => .pure _
  exact .modifyMarks fun m r' hm => ⟨hm.1, h.underlying m _ _ hm.2⟩

theorem maintains_inheritedFrom {Q : Marks → Rewrites → Prop}
    (hi : ∀ z, Maintains Q (inherit z)) (z : DeclId) : Maintains Q (c.inheritedFrom inherit z) := by
  unfold inheritedFrom
  refine .bind (hi z) fun _ => .bind (.count _) fun _ => ?_
  exact .lookup_bind fun _ _ => .unboxed z

theorem Admits.maintains_verdict (h : c.Admits r P J)
    (hi : ∀ z, Maintains (Under r P) (inherit z)) (d refined : DeclId) (type : TypeId) :
    Maintains (Under r P) (c.verdict inherit d refined type) := by
  unfold verdict
  refine .lookup_bind fun x _ => .ite (fun _ => .pure _) fun _ => ?_
  refine .ite (fun _ => maintains_inheritedFrom hi refined) fun _ => ?_
  refine .bind (h.maintains_isErasedTypeParameter type) fun erased => ?_
  refine .bind (.ofExcept _) fun nested => ?_
  dsimp only
  refine .ite (fun _ => .pure _) fun _ => .ite (fun _ => .pure _) fun _ => ?_
  refine .ite (fun _ => .bind (.ofExcept _) fun function => ?_) fun _ => .pure _
  refine .ite (fun _ => ?_) fun _ => .pure _
  exact .topmost_bind fun _ _ _ => .ite (fun _ => .pure _) fun _ => maintains_inheritedFrom hi _

/-- A verdict to unbox is justified: by the own type, or by what it is taken from, which is unboxed
by then. -/
theorem Admits.justified_of_verdict (h : c.Admits r P J)
    (hi : ∀ z, Maintains (Under r P) (inherit z)) (hx : c.program.decl? d = some x)
    (ht : x.type = some type) (hr : refined ≠ d → c.Inherits r d refined) {s : Decisions}
    (hs : Under r P s.marks s.rewrites)
    (hv : result (c.verdict inherit d refined type) s = .ok (some true)) : J d := by
  have hP := (h.maintains_verdict hi d refined type s hs).2
  have hc := verdict_concludes hx hv
  obtain ⟨hown, hother⟩ := reason_of_ground s.rewrites s.marks.bounds refined hx ht
  rw [hs.1] at hown hother hc
  generalize hg : c.ground r s.marks.bounds d refined x type = g at hown hother hc
  generalize hw : some true = v at hc
  cases hc with
  | own b _ =>
    obtain rfl := Option.some.inj hw
    exact h.own d (hown rfl)
  | other z _ _ _ =>
    have hz : J z := h.unboxed _ z hP hw.symm
    rcases hother z rfl with ⟨rfl, hne⟩ | hz'
    · exact h.inherits d z (hr hne) hz
    · exact h.inherits d z hz' hz

/-- By induction on the fuel, which only the declarations inherited from need. What is settled is
settled with itself or with its topmost declaration. -/
theorem Admits.maintains_settleWithin (h : c.Admits r P J) (fuel : Nat) {d e : DeclId}
    (he : e ≠ d → e = c.program.topmost c.policy c.limit r d) :
    Maintains (Under r P) (c.settleWithin fuel d e) := by
  induction fuel generalizing d e with
  | zero => exact .pure ()
  | succ fuel ih =>
    have hi (z : DeclId) : Maintains (Under r P) (c.inheritWithin fuel z) :=
      .lookup_bind fun _ _ => .bind (.unboxed z) fun _ =>
        .ite (fun _ => ih fun hne => absurd rfl hne) fun _ => .pure ()
    rw [settleWithin_succ]
    refine .lookup_bind fun x hx => ?_
    cases ht : x.type with
    | none => exact .pure ()
    | some type =>
      dsimp only
      refine .bind (h.maintains_inheritUnderlying d _ type) fun _ => .bind (.unboxed d) fun _ => ?_
      refine .ite (fun _ => .pure ()) fun _ => .bind .get fun _ => ?_
      refine .ite (fun _ => .bind (.count _) fun _ => .pure ()) fun _ => ?_
      have hr : c.source d e x ≠ d → c.Inherits r d (c.source d e x) := by
        intro hne
        rcases source_cases (e := e) hx with hse | hst
        · rw [hse] at hne ⊢
          exact he hne ▸ .topmost
        · exact .pointer hst
      intro s hs
      have hverdict := Maintains.deciding d (h.maintains_verdict hi d (c.source d e x) type) s hs
      rw [after_bind]
      generalize hact : deciding d (c.verdict (c.inheritWithin fuel) d _ type) = act at hverdict ⊢
      cases hv : result act s with
      | error failure => exact hverdict
      | ok v =>
        cases v with
        | none => exact hverdict
        | some b =>
          refine ⟨hverdict.1, h.decide _ d b hverdict.2 ?_⟩
          rintro rfl
          rw [← hact] at hv
          exact h.justified_of_verdict hi hx ht hr (s := { s with pending := d :: s.pending }) hs hv

theorem Admits.maintains_settle (h : c.Admits r P J) {d e : DeclId}
    (he : e ≠ d → e = c.program.topmost c.policy c.limit r d) :
    Maintains (Under r P) (c.settle d e) := h.maintains_settleWithin _ he

theorem Admits.maintains_decideValue (h : c.Admits r P J) (d : DeclId) :
    Maintains (Under r P) (c.decideValue d) := by
  refine .topmost_bind fun m r' hm => ?_
  obtain ⟨rfl, -⟩ := hm
  exact h.maintains_settle fun _ => rfl

/-- A method without a name is boxed, which needs no reason. -/
theorem Admits.maintains_decideMethod (h : c.Admits r P J) (d : DeclId) :
    Maintains (Under r P) (c.decideMethod d) := by
  refine .topmost_bind fun m r' hm => ?_
  obtain ⟨rfl, -⟩ := hm
  refine .lookup_bind fun y _ => .ite (fun _ => .pure ()) fun _ => .lookup_bind fun x _ => ?_
  refine .ite (fun _ => h.maintains_settle fun _ => rfl) fun _ => ?_
  exact .modifyMarks fun m r' hm => ⟨hm.1, h.decide m d false hm.2 nofun⟩

end Settle

end Context

/-! ## Acts -/

/-- The declaration whose erasure and rawness an act notes. -/
def Act.noted : Act → List DeclId
  | iterated _ d | variable_ d | value d | method d => [d]
  | _ => []

namespace Context
open Decide
variable {c : Context} {r : Rewrites} {P : Marks → Prop} {J : DeclId → Prop} {a : Act}

/-- What is known about the marks stays true in an act: `P` admits the decisions, and it is left
true by what the act forces and by what it notes. -/
structure Allows (c : Context) (r : Rewrites) (P : Marks → Prop) (J : DeclId → Prop) (a : Act) :
    Prop extends c.Admits r P J where
  forces : ∀ d ∈ a.forced, ∀ m, P m → P (m.forceBoxed d)
  erasure : ∀ d ∈ a.noted, Maintains (Under r P) (c.markErasure d)
  rawness : ∀ d ∈ a.noted, Maintains (Under r P) (c.markRaw d)

namespace Allows

theorem maintains_force (h : c.Allows r P J a) {d : DeclId} (hd : d ∈ a.forced) :
    Maintains (Under r P) (force d) :=
  .bind (.modifyMarks fun m _ hm => ⟨hm.1, h.forces d hd m hm.2⟩) fun _ => .count _

/-- What is noted first leaves `P` true, so the rest may do the same. -/
theorem maintains_note (h : c.Allows r P J a) {d : DeclId} (hd : d ∈ a.noted) {act : Decide Unit}
    (hact : Maintains (Under r P) act) :
    Maintains (Under r P) (do c.markErasure d; c.markRaw d; act) :=
  .bind (h.erasure d hd) fun _ => .bind (h.rawness d hd) fun _ => hact

theorem maintains_visitVariable (h : c.Allows r P J a) {d : DeclId} (hd : d ∈ a.noted) :
    Maintains (Under r P) (c.visitVariable d) :=
  .bind (.count _) fun _ => h.maintains_note hd (h.maintains_settle fun hne => absurd rfl hne)

theorem maintains_stripUnderlying (h : c.Allows r P J a) (head : DeclareHead) (body : Body) :
    Maintains (Under r P) (c.stripUnderlying head body) := by
  unfold stripUnderlying
  split
  · refine .ite (fun _ => ?_) fun _ => .pure ()
    split
    · refine .ite (fun _ => ?_) fun _ => .pure ()
      exact .modifyMarks fun m _ hm => ⟨hm.1, h.underlying m _ _ hm.2⟩
    · exact .pure ()
  · exact .pure ()

theorem maintains_act (h : c.Allows r P J a) : Maintains (Under r P) (a.run c) := by
  have self (d : DeclId) : d ∈ [d] := List.mem_singleton_self d
  cases a with
  | check l d => exact .lookupAt_bind fun _ _ => .pure ()
  | count => exact .count _
  | strip head body => exact h.maintains_stripUnderlying head body
  | force l d => exact .lookupAt_bind fun _ _ => h.maintains_force (self d)
  | literal l d =>
    exact .lookupAt_bind fun _ _ => .bind (.count _) fun _ => h.maintains_force (self d)
  | iterated l d =>
    refine .lookupAt_bind fun _ _ => .bind (h.maintains_force (self d)) fun _ => ?_
    exact h.maintains_visitVariable (self d)
  | variable_ d => exact h.maintains_visitVariable (self d)
  | value d => exact h.maintains_note (self d) (h.maintains_decideValue d)
  | method d => exact h.maintains_note (self d) (h.maintains_decideMethod d)
  | decide d => exact h.maintains_decideValue d
  | typeParameter l d =>
    refine .lookupAt_bind fun _ _ => .ite (fun _ => ?_) fun _ => .pure ()
    exact .bind (h.maintains_keepsBound d) fun _ => .pure ()
  | parameter d => exact .lookup_bind fun _ _ => .bind (.ofExcept _) fun _ => .pure ()

end Allows

/-- Between the steps no rewrites are in force; at a step those of the step are. -/
theorem maintains_step {st : Step} (h : c.Allows ⟨st.standing⟩ P J st.act) :
    Maintains (Under {} P) (st.run c) := by
  intro s ⟨hr, hs⟩
  refine ⟨((Follows.step st s).rewrites).trans hr, ?_⟩
  have hact := h.maintains_act { s with rewrites := ⟨st.standing ++ s.rewrites.entries⟩ }
    ⟨by simp [hr], hs⟩
  rw [Step.run, after_between]
  exact hact.2

theorem maintains_decideUnit {u : SourceUnit}
    (h : ∀ st ∈ c.itinerary u, c.Allows ⟨st.standing⟩ P J st.act) :
    Maintains (Under {} P) (c.decideUnit u) := by
  rw [decideUnit_eq]
  exact .forM fun st hst => maintains_step (h st hst)

end Context

end Unbox
