import Unbox.Proofs.Itinerary
import Unbox.Proofs.Recording
import Unbox.Run

/-!
# Two analyses of one tree

A tree is analysed twice, from states that differ in some respect. If no step can tell the two apart,
the analyses return the same and end in states that differ in that respect only.

* `Context.Carries R` : what a decision reads is the same for marks related by `R`, and what it writes
  keeps them related;
* `Decide.Respects R act` : from states with related marks `act` ends alike, with related marks again;
  one lemma for everything that is done about a declaration;
* `Context.decideUnits_twins` : so do both walks over the declarations of the units;
* `FoundAlike R n form j j'` : a rule finds the same flags from both sides, or fails alike, and what is
  noted then is related by `R` again;
* `Target.Carries R` : all rules do so, and the other steps of a visit keep `R`;
* `Visits.respects` : then both visits of a tree return the same and end in related states;
* `Target.visitUnits_twins` : so do both visits of the units.
-/

namespace Unbox

/-! ## Two walks over the declarations -/

/-- A question has the same answer for related marks, and they are related once it is asked. -/
def Marks.Asks {α : Type} (R : Marks → Marks → Prop) (question : StateM BoundMarks α) : Prop :=
  ∀ {m m' : Marks}, R m m' → (question m'.bounds).1 = (question m.bounds).1 ∧
    R { m with bounds := (question m.bounds).2 } { m' with bounds := (question m'.bounds).2 }

/-- A decision reads the same from related marks, and what it writes keeps them related. -/
structure Context.Carries (c : Context) (R : Marks → Marks → Prop) : Prop where
  unboxed : ∀ {m m' : Marks}, R m m' → m'.unboxed = m.unboxed
  underlying : ∀ {m m' : Marks}, R m m' → m'.underlying = m.underlying
  declaration : ∀ {m m' : Marks}, R m m' → ∀ d f, R (m.updateDeclaration d f) (m'.updateDeclaration d f)
  type : ∀ {m m' : Marks}, R m m' → ∀ a f, R (m.updateType a f) (m'.updateType a f)
  keepsBound : ∀ d, Marks.Asks R (c.policy.keepsBound c.program d)
  substitutesBound : ∀ a, Marks.Asks R (c.policy.substitutesBound c.program a)

/-- The marks are related by `R`, and all else but the past is the same. -/
structure Decisions.Related (R : Marks → Marks → Prop) (s s' : Decisions) : Prop where
  marks : R s.marks s'.marks
  rewrites : s'.rewrites = s.rewrites
  pending : s'.pending = s.pending
  stats : s'.stats = s.stats

namespace Decide
variable {α β : Type} {R : Marks → Marks → Prop} {c : Context}

/-- From related states `act` ends alike and leads to related states again. -/
def Respects (R : Marks → Marks → Prop) (act : Decide α) : Prop :=
  ∀ s s', Decisions.Related R s s' →
    result act s' = result act s ∧ Decisions.Related R (after act s) (after act s')

namespace Respects

theorem pure (a : α) : Respects R (Pure.pure a) := fun _ _ hs => ⟨rfl, hs⟩

theorem bind {x : Decide α} {f : α → Decide β} (hx : Respects R x) (hf : ∀ a, Respects R (f a)) :
    Respects R (x >>= f) := by
  intro s s' hs
  obtain ⟨hr, hs⟩ := hx s s' hs
  rw [result_bind, result_bind, after_bind, after_bind, hr]
  cases result x s with
  | ok a => exact hf a _ _ hs
  | error e => exact ⟨rfl, hs⟩

theorem seq {x : Decide α} {y : Decide β} (hx : Respects R x) (hy : Respects R y) :
    Respects R (x >>= fun _ => y) := bind hx fun _ => hy

theorem ite {p : Prop} [Decidable p] {x y : Decide α} (hx : p → Respects R x)
    (hy : ¬ p → Respects R y) : Respects R (if p then x else y) := by
  split
  · next h => exact hx h
  · next h => exact hy h

theorem forM {f : α → Decide Unit} {as : List α} (h : ∀ a, Respects R (f a)) :
    Respects R (as.forM f) := by
  induction as with
  | nil => exact pure ()
  | cons a as ih =>
    rw [List.forM_eq_forM, List.forM_cons]
    exact seq (h a) ih

/-- What depends on the state alike from related states. -/
theorem get_bind {f : Decisions → Decide α} (hf : ∀ s s', Decisions.Related R s s' → f s' = f s)
    (h : ∀ s, Respects R (f s)) : Respects R (get >>= f) := by
  intro s s' hs
  change result (f s') s' = result (f s) s ∧ Decisions.Related R (after (f s) s) (after (f s') s')
  rw [hf s s' hs]
  exact h s s s' hs

theorem ofExcept (e : Except Failure α) : Respects R (MonadExcept.ofExcept e : Decide α) := by
  intro s s' hs
  rw [result_ofExcept, result_ofExcept, after_ofExcept, after_ofExcept]
  exact ⟨rfl, hs⟩

theorem lookupAt (l : Location) (d : DeclId) : Respects R (c.lookupAt l d) := ofExcept _

theorem lookup (d : DeclId) : Respects R (c.lookup d) := ofExcept _

theorem topmost (d : DeclId) : Respects R (c.topmost d) :=
  get_bind (fun s s' hs => by rw [hs.rewrites]) fun _ => pure _

theorem count (f : DeclarationStats → DeclarationStats) : Respects R (count f) :=
  fun _ _ hs => ⟨rfl, { hs with stats := congrArg f hs.stats }⟩

theorem modifyMarks {f : Marks → Marks} (h : ∀ {m m'}, R m m' → R (f m) (f m')) :
    Respects R (modifyMarks f) :=
  fun _ _ hs => ⟨rfl, { hs with marks := h hs.marks }⟩

theorem askBounds {question : StateM BoundMarks α} (h : Marks.Asks R question) :
    Respects R (askBounds question) := by
  intro s s' hs
  obtain ⟨ha, hm⟩ := h hs.marks
  exact ⟨congrArg Except.ok ha, { hs with marks := hm }⟩

theorem deciding {act : Decide α} (d : DeclId) (h : Respects R act) : Respects R (deciding d act) := by
  intro s s' hs
  obtain ⟨hr, hs⟩ := h { s with pending := d :: s.pending } { s' with pending := d :: s'.pending }
    { hs with pending := congrArg (d :: ·) hs.pending }
  exact ⟨hr, { hs with pending := congrArg (·.erase d) hs.pending }⟩

section Carries
variable (hc : c.Carries R)
include hc

theorem unboxed (d : DeclId) : Respects R (unboxed d) :=
  get_bind (fun s s' hs => by rw [hc.unboxed hs.marks]) fun _ => pure _

theorem setUnboxed (d : DeclId) (b : Bool) : Respects R (Decide.modifyMarks (·.setUnboxed d b)) := by
  refine modifyMarks fun {m m'} hm => ?_
  unfold Marks.setUnboxed
  rw [hc.unboxed hm]
  split
  · exact hc.declaration hm d _
  · exact hm

theorem force (d : DeclId) : Respects R (force d) :=
  seq (modifyMarks fun hm => hc.declaration hm d _) (count _)

/-! ### What is done about a declaration -/

theorem markErasure (d : DeclId) : Respects R (c.markErasure d) := by
  unfold Context.markErasure
  refine bind (lookup d) fun x => ?_
  have untrusts (b : Bool) : Respects R (if b then do
      Decide.modifyMarks (·.markUntrusted d)
      Decide.count fun s => { s with untrusted := s.untrusted + 1 }
      else Pure.pure ()) :=
    ite (fun _ => seq (modifyMarks fun hm => hc.declaration hm d _) (count _)) fun _ => pure ()
  have marks : Respects R (Decide.modifyMarks (·.markErased d)) :=
    modifyMarks fun hm => hc.declaration hm d _
  split
  · next type _ =>
    dsimp only
    refine ite (fun _ => bind (pure true) fun _ => ?_) fun _ =>
      bind (askBounds (hc.substitutesBound type)) fun _ => ?_
    · exact ite (fun _ => seq marks (seq (count _) (untrusts _))) fun _ => untrusts _
    · exact ite (fun _ => seq marks (seq (count _) (untrusts _))) fun _ => untrusts _
  · exact pure ()

theorem markRaw (d : DeclId) : Respects R (c.markRaw d) := by
  unfold Context.markRaw
  refine bind (lookup d) fun x => ?_
  split
  · next type _ =>
    refine ite (fun _ => ?_) fun _ => pure ()
    exact ite (fun _ => seq (modifyMarks fun hm => hc.type hm type _) (count _)) fun _ => count _
  · exact pure ()

theorem isErasedTypeParameter (a : TypeId) : Respects R (c.isErasedTypeParameter a) := by
  unfold Context.isErasedTypeParameter
  split
  · next d _ => exact bind (askBounds (hc.keepsBound d)) fun _ => pure _
  · exact pure _

theorem inheritedFrom {inherit : DeclId → Decide Unit} (source : DeclId)
    (h : ∀ r, Respects R (inherit r)) : Respects R (c.inheritedFrom inherit source) :=
  seq (h source) (seq (count _) (bind (lookup source) fun _ => unboxed hc source))

theorem nestedVerdict {inherit : DeclId → Decide Unit} (d function : DeclId) (type : TypeId)
    (h : ∀ r, Respects R (inherit r)) : Respects R (c.nestedVerdict inherit d function type) := by
  unfold Context.nestedVerdict
  refine bind (topmost function) fun refined => ?_
  exact ite (fun _ => pure _) fun _ => inheritedFrom hc _ h

theorem verdict {inherit : DeclId → Decide Unit} (d refined : DeclId) (type : TypeId)
    (h : ∀ r, Respects R (inherit r)) : Respects R (c.verdict inherit d refined type) := by
  unfold Context.verdict
  refine bind (lookup d) fun x => ?_
  refine ite (fun _ => pure _) fun _ => ?_
  refine ite (fun _ => inheritedFrom hc _ h) fun _ => ?_
  refine bind (isErasedTypeParameter hc type) fun erased => ?_
  refine bind (ofExcept _) fun nested => ?_
  dsimp only
  refine ite (fun _ => pure _) fun _ => ?_
  refine ite (fun _ => pure _) fun _ => ?_
  refine ite (fun _ => ?_) fun _ => pure _
  refine bind (ofExcept _) fun function => ?_
  exact ite (fun _ => nestedVerdict hc d function type h) fun _ => pure _

theorem inheritUnderlying (d refined : DeclId) (type : TypeId) :
    Respects R (c.inheritUnderlying d refined type) := by
  unfold Context.inheritUnderlying
  refine get_bind (fun s s' hs => by rw [hc.underlying hs.marks]) fun _ => ?_
  refine ite (fun _ => bind (lookup refined) fun r => ?_) fun _ => pure _
  refine get_bind (fun s s' hs => by rw [hc.underlying hs.marks]) fun _ => ?_
  exact ite (fun _ => modifyMarks fun hm => hc.type hm type _) fun _ => pure _

/-- By induction on the fuel, which only the declarations inherited from need. -/
theorem settleWithin (fuel : Nat) (d topmost : DeclId) :
    Respects R (c.settleWithin fuel d topmost) := by
  induction fuel generalizing d topmost with
  | zero => exact pure ()
  | succ fuel ih =>
    unfold Context.settleWithin
    refine bind (lookup d) fun x => ?_
    split
    · next type _ =>
      refine seq (inheritUnderlying hc d _ type) (bind (unboxed hc d) fun flag => ?_)
      refine ite (fun _ => pure ()) fun _ => ?_
      have inherits (r : DeclId) : Respects R (do
          let _ ← c.lookup r
          if (← Decide.unboxed r).isNone then c.settleWithin fuel r r) :=
        bind (lookup r) fun _ => bind (unboxed hc r) fun _ => ite (fun _ => ih r r) fun _ => pure ()
      refine get_bind (fun s s' hs => by rw [hs.pending]) fun _ => ?_
      refine ite (fun _ => seq (count _) (pure ())) fun _ => ?_
      refine bind (deciding d (verdict hc d _ type inherits)) fun v => ?_
      split
      · next b => exact setUnboxed hc d b
      · exact pure ()
    · exact pure ()

theorem settle (d topmost : DeclId) : Respects R (c.settle d topmost) := settleWithin hc _ d topmost

theorem decideMethod (d : DeclId) : Respects R (c.decideMethod d) := by
  unfold Context.decideMethod
  refine bind (topmost d) fun refined => bind (lookup refined) fun r => ?_
  refine ite (fun _ => pure ()) fun _ => bind (lookup d) fun x => ?_
  exact ite (fun _ => settle hc d refined) fun _ => setUnboxed hc d false

theorem decideValue (d : DeclId) : Respects R (c.decideValue d) :=
  bind (topmost d) fun refined => settle hc d refined

theorem visitVariable (d : DeclId) : Respects R (c.visitVariable d) :=
  seq (count _) (seq (markErasure hc d) (seq (markRaw hc d) (settle hc d d)))

theorem stripUnderlying (head : DeclareHead) (body : Body) :
    Respects R (c.stripUnderlying head body) := by
  unfold Context.stripUnderlying
  split
  · refine ite (fun _ => ?_) fun _ => pure ()
    split
    · next declared _ _ _ =>
      exact ite (fun _ => modifyMarks fun hm => hc.type hm declared _) fun _ => pure ()
    · exact pure ()
  · exact pure ()

theorem visitTypeParameter (l : Location) (d : DeclId) : Respects R (c.visitTypeParameter l d) := by
  unfold Context.visitTypeParameter
  refine bind (lookupAt l d) fun x => ?_
  exact ite (fun _ => bind (askBounds (hc.keepsBound d)) fun _ => pure ()) fun _ => pure ()

/-! ### The steps of the walk -/

theorem act (a : Act) : Respects R (a.run c) := by
  cases a with
  | check l d => exact bind (lookupAt l d) fun _ => pure ()
  | count => exact count _
  | strip head body => exact stripUnderlying hc head body
  | force l d => exact bind (lookupAt l d) fun _ => force hc d
  | literal l d => exact bind (lookupAt l d) fun _ => seq (count _) (force hc d)
  | iterated l d => exact bind (lookupAt l d) fun _ => seq (force hc d) (visitVariable hc d)
  | variable_ d => exact visitVariable hc d
  | value d => exact seq (markErasure hc d) (seq (markRaw hc d) (decideValue hc d))
  | method d => exact seq (markErasure hc d) (seq (markRaw hc d) (decideMethod hc d))
  | decide d => exact decideValue hc d
  | typeParameter l d => exact visitTypeParameter hc l d
  | parameter d => exact bind (lookup d) fun _ => bind (ofExcept _) fun _ => pure ()

theorem step (s : Step) : Respects R (s.run c) := by
  intro u u' hu
  obtain ⟨hr, hu⟩ := act hc s.act { u with rewrites := ⟨s.standing ++ u.rewrites.entries⟩ }
    { u' with rewrites := ⟨s.standing ++ u'.rewrites.entries⟩ }
    { hu with rewrites := congrArg (Rewrites.mk <| s.standing ++ ·.entries) hu.rewrites }
  exact ⟨hr,
    { hu with rewrites := congrArg (Rewrites.mk <| ·.entries.drop s.standing.length) hu.rewrites }⟩

theorem decideUnit (u : SourceUnit) : Respects R (c.decideUnit u) := by
  rw [Context.decideUnit_eq]
  exact forM (step hc)

end Carries

end Respects

end Decide

/-- Both walks end alike, with related marks. -/
theorem Context.decideUnits_twins {c : Context} {R : Marks → Marks → Prop} (hc : c.Carries R)
    {m m' : Marks} (hm : R m m') (units : List SourceUnit) :
    (c.decideUnits m' units).1 = (c.decideUnits m units).1 ∧
      Decisions.Related R (c.decideUnits m units).2 (c.decideUnits m' units).2 :=
  Decide.Respects.forM (.decideUnit hc) _ _ ⟨hm, rfl, rfl, rfl⟩

/-! ## Two visits of a tree -/

open Visitor

/-- Both sides find the same flags, and what is noted then is related by `R`; or both fail alike. -/
inductive FoundAlike (R : Journal → Journal → Prop) (n : Node) (form : Form) (j j' : Journal) :
    Except Failure Finding → Except Failure Finding → Prop where
  | error (e : Failure) : FoundAlike R n form j j' (.error e) (.error e)
  | ok {found found' : Finding} (hf : found'.flags = found.flags)
    (h : R (j.note (.mk n form) found) (j'.note (.mk n form) found')) :
    FoundAlike R n form j j' (.ok found) (.ok found')

/-- No rule can tell related journals apart, and every step of a visit keeps them related. -/
structure Target.Carries (t : Target) (R : Journal → Journal → Prop) : Prop where
  find : ∀ {j j' : Journal}, R j j' → ∀ scopes n form,
    FoundAlike R n form j j' (t.find j.marks scopes n form) (t.find j'.marks scopes n form)
  force : ∀ {j j' : Journal}, R j j' → ∀ d,
    R { j with marks := j.marks.forceBoxed d } { j' with marks := j'.marks.forceBoxed d }
  underlying : ∀ {j j' : Journal}, R j j' → ∀ a u,
    R { j with marks := j.marks.setUnderlying a u } { j' with marks := j'.marks.setUnderlying a u }

/-- What was noted is related by `R`, and the place is the same. -/
structure Visit.Related (R : Journal → Journal → Prop) (s s' : Visit) : Prop where
  journal : R s.journal s'.journal
  scopes : s'.scopes = s.scopes
  bound : s'.bound = s.bound
  failure : s'.failure = s.failure

namespace Visitor
variable {α β : Type} {R : Journal → Journal → Prop} {t : Target}

/-- From related states `act` returns the same and leads to related states again. -/
def Respects (R : Journal → Journal → Prop) (act : Visitor α) : Prop :=
  ∀ s s', Visit.Related R s s' → (act s').1 = (act s).1 ∧ Visit.Related R (act s).2 (act s').2

namespace Respects

theorem pure (a : α) : Respects R (Pure.pure a) := fun _ _ hs => ⟨rfl, hs⟩

theorem bind {x : Visitor α} {f : α → Visitor β} (hx : Respects R x)
    (hf : ∀ s, Respects R (f (x s).1)) : Respects R (x >>= f) := by
  intro s s' hs
  obtain ⟨ha, hs⟩ := hx s s' hs
  change (f (x s').1 (x s').2).1 = _ ∧ Visit.Related R _ (f (x s').1 (x s').2).2
  rw [ha]
  exact hf s _ _ hs

theorem inside {act : Visitor α} (d : DeclId) (h : Respects R act) : Respects R (inside d act) := by
  intro s s' hs
  obtain ⟨ha, hs⟩ := h { s with scopes := d :: s.scopes } { s' with scopes := d :: s'.scopes }
    ⟨hs.journal, congrArg (d :: ·) hs.scopes, hs.bound, hs.failure⟩
  exact ⟨ha, hs.journal, congrArg List.tail hs.scopes, hs.bound, hs.failure⟩

theorem binding {act : Visitor α} (ds : List DeclId) (h : Respects R act) :
    Respects R (binding ds act) := by
  intro s s' hs
  obtain ⟨ha, hs⟩ := h { s with bound := ds ++ s.bound } { s' with bound := ds ++ s'.bound }
    ⟨hs.journal, hs.scopes, congrArg (ds ++ ·) hs.bound, hs.failure⟩
  exact ⟨ha, hs.journal, hs.scopes, congrArg (List.drop ds.length) hs.bound, hs.failure⟩

/-! ### The steps besides the rules -/

/-- A step that fails alike from related states, or leads to related ones. -/
theorem attempt {step : Visit → Except Failure Visit}
    (h : ∀ s s', Visit.Related R s s' → (∃ e, step s = .error e ∧ step s' = .error e) ∨
      ∃ r r', step s = .ok r ∧ step s' = .ok r' ∧ Visit.Related R r r') :
    Respects R (attempt step) := by
  intro s s' hs
  refine ⟨rfl, ?_⟩
  cases hf : s.failure with
  | some e =>
    rw [attempt_of_failure hf, attempt_of_failure (hs.failure.trans hf)]
    exact hs
  | none =>
    have hf' : s'.failure = none := hs.failure.trans hf
    rcases h s s' hs with ⟨e, he, he'⟩ | ⟨r, r', hr, hr', hrelated⟩
    · rw [attempt_of_error hf he, attempt_of_error hf' he']
      exact ⟨hs.journal, hs.scopes, hs.bound, rfl⟩
    · rw [attempt_of_ok hf hr, attempt_of_ok hf' hr']
      exact hrelated

theorem forceAt (ht : t.Carries R) (l : Location) (d : DeclId) : Respects R (t.forceAt l d) := by
  refine attempt fun s s' hs => ?_
  cases t.program.decl d l with
  | error e => exact .inl ⟨e, rfl, rfl⟩
  | ok x => exact .inr ⟨_, _, rfl, rfl, ht.force hs.journal d, hs.scopes, hs.bound, hs.failure⟩

theorem forces (ht : t.Carries R) (l : Location) (ds : List DeclId) :
    Respects R (ds.forM (t.forceAt l)) := by
  induction ds with
  | nil => exact pure ()
  | cons d ds ih => exact bind (forceAt ht l d) fun _ => ih

theorem boxReceiver (ht : t.Carries R) (e : Expr) : Respects R (boxReceiver e) := by
  refine attempt fun s s' hs => .inr ?_
  split
  · next d _ _ _ _ _ =>
    rw [hs.bound]
    split
    · exact ⟨_, _, rfl, rfl, ht.force hs.journal d, hs.scopes, rfl, hs.failure⟩
    · exact ⟨s, s', rfl, rfl, hs⟩
  · exact ⟨s, s', rfl, rfl, hs⟩

theorem narrow (ht : t.Carries R) (e : Expr) : Respects R (t.narrow e) := by
  refine attempt fun s s' hs => ?_
  cases e.referenced with
  | none => exact .inr ⟨s, s', rfl, rfl, hs⟩
  | some d =>
    dsimp only
    cases t.program.decl d e.location with
    | error failure => exact .inl ⟨failure, rfl, rfl⟩
    | ok x =>
      dsimp only [Bind.bind, Except.bind]
      cases x.isSmall with
      | false => exact .inr ⟨s, s', rfl, rfl, hs⟩
      | true =>
        cases t.checkType e.node with
        | error failure => exact .inl ⟨failure, rfl, rfl⟩
        | ok =>
          cases e.type with
          | none => exact .inr ⟨s, s', rfl, rfl, hs⟩
          | some a =>
            exact .inr ⟨_, _, rfl, rfl, ht.underlying hs.journal a _, hs.scopes, hs.bound, hs.failure⟩

theorem checkAt (l : Location) (d : DeclId) : Respects R (t.checkAt l d) := by
  refine attempt fun s s' hs => ?_
  cases t.program.decl d l with
  | error e => exact .inl ⟨e, rfl, rfl⟩
  | ok x => exact .inr ⟨s, s', rfl, rfl, hs⟩

theorem chore (ht : t.Carries R) {q : Part} {u : Visitor Unit} (h : Chore t q u) : Respects R u := by
  cases h with
  | forces l _ => exact forces ht l _
  | receiver _ e => exact boxReceiver ht e
  | narrow _ => exact narrow ht _
  | check head _ _ => exact checkAt _ _

/-! ### The rules -/

theorem finish (ht : t.Carries R) (n : Node) (form : Form) : Respects R (t.finish n form) := by
  intro s s' hs
  cases hf : s.failure with
  | some e =>
    rw [Target.finish_of_failure hf, Target.finish_of_failure (hs.failure.trans hf)]
    exact ⟨rfl, hs⟩
  | none =>
    have hf' : s'.failure = none := hs.failure.trans hf
    have halike := ht.find hs.journal s.scopes n form
    generalize hx : t.find s.journal.marks s.scopes n form = x at halike
    generalize hx' : t.find s'.journal.marks s.scopes n form = x' at halike
    rw [← hs.scopes] at hx'
    cases halike with
    | error e =>
      rw [Target.finish_of_error hf hx, Target.finish_of_error hf' hx']
      exact ⟨rfl, hs.journal, hs.scopes, hs.bound, rfl⟩
    | ok hflags h =>
      rw [Target.finish_of_ok hf hx, Target.finish_of_ok hf' hx']
      exact ⟨congrArg (fun flags => Expr.mk { n with flags } form) hflags, h, hs.scopes, hs.bound,
        hs.failure⟩

end Respects

end Visitor

theorem Visits.respects {t : Target} {R : Journal → Journal → Prop} (ht : t.Carries R) {α : Type}
    {L : Layout α} {ps : List Part} {a : α} {visit : α → Visitor α} (h : Visits t L ps visit a) :
    Visitor.Respects R (visit a) := by
  induction h with
  | done _ hv =>
    rw [hv]
    exact .pure _
  | pair _ _ ihx ihy => exact .bind ihx fun _ => .bind ihy fun _ => .pure _
  | build _ _ hv _ _ ih =>
    rw [hv _ rfl]
    exact .bind ih fun _ => .pure _
  | finish n _ _ hv _ _ ih =>
    rw [hv n _ rfl]
    exact .bind ih fun _ => .finish ht n _
  | inside d _ ih => exact .inside d ih
  | note _ _ _ ih => exact ih
  | chore h _ hu ih =>
    refine .bind ih fun s => .bind ?_ fun _ => .pure _
    obtain ⟨q, -, hq⟩ := hu _ (h.bare s)
    exact .chore ht hq
  | iteration ds _ _ _ _ ihx ihy =>
    exact .bind ihx fun s => .bind (.forces ht _ ds) fun _ => .bind (.binding ds ihy) fun _ => .pure _

/-- Only the marks count. -/
theorem Target.carries_marks (t : Target) : t.Carries fun j j' => j'.marks = j.marks where
  find {j j'} h scopes n form := by
    rw [h]
    cases t.find j.marks scopes n form with
    | error e => exact .error e
    | ok found => exact .ok rfl rfl
  force h d := congrArg (·.forceBoxed d) h
  underlying h a u := congrArg (·.setUnderlying a u) h

/-- Both visits of the units return the same, and what they note is related. -/
theorem Target.visitUnits_twins {t : Target} {R : Journal → Journal → Prop} (ht : t.Carries R)
    (isRecording isRecording' : Bool) {m m' : Marks}
    (h : R ⟨m, {}, isRecording, #[]⟩ ⟨m', {}, isRecording', #[]⟩) (units : List SourceUnit) :
    (t.visitUnits isRecording' m' units).1 = (t.visitUnits isRecording m units).1 ∧
      Visit.Related R (t.visitUnits isRecording m units).2 (t.visitUnits isRecording' m' units).2 :=
  (t.mapM_visits units).respects ht { marks := m, isRecording }
    { marks := m', isRecording := isRecording' } ⟨h, rfl, rfl, rfl⟩

end Unbox
