import Unbox.Proofs.Itinerary
import Unbox.Proofs.Topmost
import Unbox.Proofs.Traversal

/-!
# What is entered is left again

* `Decide.Restores act` : from every state `act` leaves the rewrites in force and the declarations
  being decided as they were, whether it fails or not;
* `Visitor.Restores act` : and likewise for the scopes and the bound variables of a visit;
* `Visitor.Marking u` : `u` does nothing but change marks or fail, and looks at nothing but the marks
  and the bound variables; so does every chore of a visit (`Chore.marking`);
* `Visits.restores` : every visit restores;
* `Context.restores_scopes` : so does every walk and every visit of a tree, and every resolution;
  nothing is left over between calls.
-/

namespace Unbox

/-! ## Walks -/

namespace Decide
variable {α : Type}

/-- The rewrites in force and the declarations being decided are left as they were, also by a
failure. -/
def Restores (act : Decide α) : Prop :=
  ∀ s, (after act s).rewrites = s.rewrites ∧ (after act s).pending = s.pending

theorem Follows.restores {W : Marks → Marks → Prop} {act : Decide α} (h : Follows W act) :
    Restores act := by
  intro s
  exact ⟨(h s).rewrites, (h s).pending⟩

/-- By induction on the calls: each starts where the one before ended, failed or not. -/
theorem Restores.each {step : α → Decide Unit} (h : ∀ a, Restores (step a)) (s : Decisions)
    (as : List α) :
    (each step s as).2.rewrites = s.rewrites ∧ (each step s as).2.pending = s.pending := by
  induction as generalizing s with
  | nil => exact ⟨rfl, rfl⟩
  | cons a as ih =>
    obtain ⟨hr, hp⟩ := h a s
    obtain ⟨hr', hp'⟩ := ih (after (step a) s)
    exact ⟨hr'.trans hr, hp'.trans hp⟩

end Decide

namespace Context
open Decide
variable (c : Context)

theorem perform_restores (steps : List Step) : Restores (c.perform steps) := by
  have hstep : ∀ st ∈ steps, Follows (fun _ _ => True) (st.run c) := by
    intro st _
    exact (Follows.step st).mono fun _ _ _ => trivial
  exact (Follows.forM hstep).restores

theorem ensure_restores (d : DeclId) : Restores (c.ensure d) :=
  (Follows.ensure (D := fun _ => True) (F := fun _ => True) (fun _ => trivial) d).restores

end Context

/-! ## Visits -/

namespace Visitor
variable {α β : Type}

/-- The scopes and the bound variables are left as they were, also by a failure. -/
def Restores (act : Visitor α) : Prop :=
  ∀ s, (act s).2.scopes = s.scopes ∧ (act s).2.bound = s.bound

namespace Restores

theorem pure (a : α) : Restores (Pure.pure a) := fun _ => ⟨rfl, rfl⟩

theorem bind {x : Visitor α} {f : α → Visitor β} (hx : Restores x)
    (hf : ∀ s, Restores (f (x s).1)) : Restores (x >>= f) := by
  intro s
  obtain ⟨hs, hb⟩ := hx s
  obtain ⟨hs', hb'⟩ := hf s (x s).2
  exact ⟨hs'.trans hs, hb'.trans hb⟩

theorem inside {act : Visitor α} (d : DeclId) (h : Restores act) : Restores (inside d act) := by
  intro s
  obtain ⟨hs, hb⟩ := h { s with scopes := d :: s.scopes }
  exact ⟨congrArg List.tail hs, hb⟩

theorem binding {act : Visitor α} (ds : List DeclId) (h : Restores act) :
    Restores (binding ds act) := by
  intro s
  obtain ⟨hs, hb⟩ := h { s with bound := ds ++ s.bound }
  exact ⟨hs, (congrArg (List.drop ds.length) hb).trans List.drop_left⟩

theorem each {step : α → Visitor α} (h : ∀ a, Restores (step a)) (s : Visit) (as : List α) :
    (each step s as).2.scopes = s.scopes ∧ (each step s as).2.bound = s.bound := by
  induction as generalizing s with
  | nil => exact ⟨rfl, rfl⟩
  | cons a as ih =>
    obtain ⟨hs, hb⟩ := h a { s with records := #[], failure := none }
    obtain ⟨hs', hb'⟩ := ih (step a { s with records := #[], failure := none }).2
    exact ⟨hs'.trans hs, hb'.trans hb⟩

end Restores

/-- What `f` makes of the marks and the bound variables are the new marks. -/
def mark (f : Marks → List DeclId → Except Failure Marks) (s : Visit) : Except Failure Visit :=
  (f s.marks s.bound).map fun m => { s with marks := m }

/-- A step that changes marks or fails, and looks at nothing but the marks and the bound
variables. -/
inductive Marking : Visitor Unit → Prop where
  | done : Marking (pure ())
  | attempt (f : Marks → List DeclId → Except Failure Marks) : Marking (attempt (mark f))
  | seq {u v : Visitor Unit} (hu : Marking u) (hv : Marking v) : Marking (u >>= fun _ => v)

namespace Marking
variable {t : Target}

theorem of_step {step : Visit → Except Failure Visit}
    {f : Marks → List DeclId → Except Failure Marks} (h : ∀ s, step s = mark f s) :
    Marking (Visitor.attempt step) := by
  obtain rfl : step = mark f := funext h
  exact .attempt f

theorem forceAt (l : Location) (d : DeclId) : Marking (t.forceAt l d) := by
  refine of_step (f := fun m _ => (t.program.decl d l).map fun _ => m.forceBoxed d) fun s => ?_
  unfold mark
  cases t.program.decl d l <;> rfl

theorem forces (l : Location) (ds : List DeclId) : Marking (ds.forM (t.forceAt l)) := by
  induction ds with
  | nil => exact .done
  | cons d ds ih => exact .seq (forceAt l d) ih

theorem boxReceiver (e : Expr) : Marking (boxReceiver e) := by
  unfold Visitor.boxReceiver
  split
  · next d _ _ _ _ _ =>
    refine of_step
      (f := fun m bound => .ok (if bound.contains d then m.forceBoxed d else m)) fun s => ?_
    unfold mark
    dsimp only
    split <;> rfl
  · exact of_step (f := fun m _ => .ok m) fun s => rfl

theorem narrow (e : Expr) : Marking (t.narrow e) := by
  have keep : Marking (Visitor.attempt fun s => .ok s) := of_step (f := fun m _ => .ok m) fun _ => rfl
  unfold Target.narrow
  cases e.referenced with
  | none => exact keep
  | some d =>
    dsimp only
    cases t.program.decl d e.location with
    | error failure => exact of_step (f := fun _ _ => .error failure) fun _ => rfl
    | ok x =>
      dsimp only [bind, Except.bind]
      cases x.isSmall with
      | false => exact keep
      | true =>
        cases t.checkType e.node with
        | error failure => exact of_step (f := fun _ _ => .error failure) fun _ => rfl
        | ok =>
          cases e.type with
          | none => exact keep
          | some a => exact of_step (f := fun m _ => .ok (m.setUnderlying a (some .int))) fun _ => rfl

theorem checkAt (l : Location) (d : DeclId) : Marking (t.checkAt l d) := by
  refine of_step (f := fun m _ => (t.program.decl d l).map fun _ => m) fun s => ?_
  unfold mark
  cases t.program.decl d l <;> rfl

theorem restores {u : Visitor Unit} (h : Marking u) : Restores u := by
  induction h with
  | done => exact .pure ()
  | attempt f =>
    intro s
    cases hf : s.failure with
    | some e =>
      rw [attempt_of_failure hf]
      exact ⟨rfl, rfl⟩
    | none =>
      cases hm : f s.marks s.bound with
      | error e =>
        rw [attempt_of_error hf (by rw [mark, hm]; rfl)]
        exact ⟨rfl, rfl⟩
      | ok m =>
        rw [attempt_of_ok hf (by rw [mark, hm]; rfl)]
        exact ⟨rfl, rfl⟩
  | seq _ _ ihu ihv => exact .bind ihu fun _ => ihv

end Marking

end Visitor

theorem Chore.marking {t : Target} {q : Part} {u : Visitor Unit} (h : Chore t q u) :
    Visitor.Marking u := by
  cases h with
  | forces l _ => exact .forces l _
  | receiver _ e => exact .boxReceiver e
  | narrow _ => exact .narrow _
  | check head lists body => exact .checkAt _ _

theorem Target.finish_restores (t : Target) (n : Node) (form : Form) :
    Visitor.Restores (t.finish n form) := by
  intro s
  have h := finish_leads (t := t) (F := fun _ => True) n form s
  exact ⟨h.scopes, h.bound⟩

namespace Visits
variable {t : Target} {α : Type} {L : Layout α} {ps : List Part} {a : α} {visit : α → Visitor α}

/-- By induction on how the visit is put together. Only the body of a declaration and the rest of a
comprehension add to the scopes and the bound variables, and both take away what they added. -/
theorem restores (h : Visits t L ps visit a) : Visitor.Restores (visit a) := by
  induction h with
  | done _ hv =>
    rw [hv]
    exact .pure _
  | pair _ _ ihx ihy => exact .bind ihx fun _ => .bind ihy fun _ => .pure _
  | build _ _ hv _ _ ih =>
    rw [hv _ rfl]
    exact .bind ih fun _ => .pure _
  | finish n _ _ hv _ _ ih =>
    rw [hv n _ rfl]
    exact .bind ih fun _ => t.finish_restores n _
  | inside d _ ih => exact .inside d ih
  | note _ _ _ ih => exact ih
  | chore h _ hu ih =>
    refine .bind ih fun s => .bind ?_ fun _ => .pure _
    obtain ⟨q, -, hq⟩ := hu _ (h.bare s)
    exact hq.marking.restores
  | iteration ds _ _ _ _ ihx ihy =>
    refine .bind ihx fun s => .bind ?_ fun _ => .bind (.binding ds ihy) fun _ => .pure _
    exact (Visitor.Marking.forces _ ds).restores

end Visits

/-! ## All that is entered -/

/-- A call that decides declarations: those of a unit, or a single one. -/
def Context.call (c : Context) : SourceUnit ⊕ DeclId → Decide Unit
  | .inl u => c.decideUnit u
  | .inr d => c.ensure d

/-- A call that visits a unit, or a single expression. -/
def Target.call (t : Target) : SourceUnit ⊕ Expr → Visitor (SourceUnit ⊕ Expr)
  | .inl u => return .inl (← t.visitUnit u)
  | .inr e => return .inr (← t.visit e)

namespace Context
variable (c : Context)

theorem call_restores (a : SourceUnit ⊕ DeclId) : Decide.Restores (c.call a) := by
  cases a with
  | inl u =>
    rw [call, decideUnit_eq]
    exact c.perform_restores _
  | inr d => exact c.ensure_restores d

theorem visit_call_restores (t : Target) (a : SourceUnit ⊕ Expr) : Visitor.Restores (t.call a) := by
  cases a with
  | inl u => exact (t.visitUnit_visits u).restores
  | inr e => exact (t.visit_visits e).restores

/-- Whatever is entered is left again, by success and by failure: the rewrites and the declarations
being decided by every walk, the scopes and the bound variables by every visit, the path by every
resolution. So none of them holds anything between calls, also after one that failed. -/
theorem restores_scopes :
    (∀ e, Decide.Restores (c.walk e) ∧ Visitor.Restores (c.visit e)) ∧
    (∀ s, Decide.Restores (c.walkStmt s) ∧ Visitor.Restores (c.visitStmt s)) ∧
    (∀ ps, Decide.Restores (c.walkParameters ps) ∧ Visitor.Restores (c.visitParameters ps)) ∧
    (∀ as, Decide.Restores (c.walkNamed as) ∧ Visitor.Restores (c.visitNamed as)) ∧
    (∀ k, Decide.Restores (c.walkClause k) ∧ Visitor.Restores (c.visitClause k)) ∧
    (∀ r room d path, ((c.program.resolve c.policy r room d).run path).2 = path) ∧
    (∀ m calls, (Decide.each c.call { marks := m } calls).2.rewrites.isEmpty = true ∧
      (Decide.each c.call { marks := m } calls).2.pending = []) ∧
    ∀ m isRecording calls,
      (Visitor.each c.toTarget.call { marks := m, isRecording } calls).2.scopes = [] ∧
      (Visitor.each c.toTarget.call { marks := m, isRecording } calls).2.bound = [] := by
  refine ⟨fun e => ⟨?_, (c.visit_visits e).restores⟩, fun s => ⟨?_, (c.visitStmt_visits s).restores⟩,
    fun ps => ⟨?_, (c.visitParameters_visits ps).restores⟩,
    fun as => ⟨?_, (c.visitNamed_visits as).restores⟩,
    fun k => ⟨?_, (c.visitClause_visits k).restores⟩, fun r room d path => ?_, fun m calls => ?_,
    fun m isRecording calls => ?_⟩
  · exact c.walk_eq e ▸ c.perform_restores _
  · exact c.walkStmt_eq s ▸ c.perform_restores _
  · exact c.walkParameters_eq ps ▸ c.perform_restores _
  · exact c.walkNamed_eq as ▸ c.perform_restores _
  · exact c.walkClause_eq k ▸ c.perform_restores _
  · rw [Program.resolve_run]
  · obtain ⟨hr, hp⟩ := Decide.Restores.each c.call_restores { marks := m } calls
    exact ⟨by rw [hr]; rfl, hp⟩
  · exact Visitor.Restores.each (visit_call_restores c.toTarget) { marks := m, isRecording } calls

end Context

end Unbox
