import Mathlib.Data.List.Nodup
import Mathlib.Data.List.Perm.Subperm
import Unbox.Proofs.Itinerary
import Unbox.Proofs.Topmost
import Unbox.Run

/-!
# Limits that are never reached

The declarations that are being resolved are all different and all in the table, so a limit beyond
the number of declarations is never reached, and two such limits decide the same.

* `Program.length_le_of_nodup` : there are no more different declarations than the table has;
* `Program.resolved_of_room` : room beyond that changes nothing;
* `Program.topmost_of_limit` : nor does such a limit;
* `Context.decideUnits_of_limit` : so all units are decided alike under two such limits.
-/

namespace Unbox

namespace Program
variable {p : Program} {policy : Policy} {r : Rewrites}

theorem length_le_of_nodup {ds : List DeclId} (hn : ds.Nodup)
    (hd : ∀ d ∈ ds, p.hasDecl d = true) : ds.length ≤ p.decls.size := by
  have hinj : Function.Injective (Id.index (e := .declaration)) := fun ⟨_⟩ ⟨_⟩ h => congrArg Id.mk h
  have hsub : ds.map Id.index ⊆ List.range p.decls.size := by
    intro i hi
    obtain ⟨d, hds, rfl⟩ := List.mem_map.mp hi
    simpa [hasDecl] using hd d hds
  simpa using (List.subperm_of_subset (hn.map hinj) hsub).length_le

/-- By induction on the room. The path grows by one declaration of the table each time, so the room
is used up only when the path would be longer than the table. -/
theorem resolved_of_room {room room' : Nat} {path : List DeclId} {d : DeclId} (hn : path.Nodup)
    (hp : ∀ e ∈ path, p.hasDecl e = true) (h : p.decls.size + 1 ≤ room + path.length)
    (h' : p.decls.size + 1 ≤ room' + path.length) :
    p.resolved policy r room path d = p.resolved policy r room' path d := by
  have hlen := length_le_of_nodup hn hp
  induction room generalizing room' path d with
  | zero => omega
  | succ room ih =>
    obtain ⟨k, rfl⟩ : ∃ k, room' = k + 1 := ⟨room' - 1, by omega⟩
    by_cases hd : path.contains d = true
    · rw [resolved, resolved, if_pos hd, if_pos hd]
    · cases hx : p.decl? d with
      | none => simp only [resolved, hx]
      | some x =>
        have hn' : (d :: path).Nodup := List.nodup_cons.mpr ⟨by simpa using hd, hn⟩
        have hp' : ∀ e ∈ d :: path, p.hasDecl e = true :=
          List.forall_mem_cons.mpr ⟨hasDecl_of_decl? hx, hp⟩
        have hnext : p.resolved policy r room (d :: path) = p.resolved policy r k (d :: path) := by
          funext e
          apply ih hn' hp'
          · simp only [List.length_cons]; omega
          · simp only [List.length_cons]; omega
          · exact length_le_of_nodup hn' hp'
        simp only [resolved, hx, hnext]

theorem topmost_of_limit {limit limit' : Nat} (h : p.decls.size + 1 ≤ limit)
    (h' : p.decls.size + 1 ≤ limit') (d : DeclId) :
    p.topmost policy limit r d = p.topmost policy limit' r d := by
  rw [topmost_eq, topmost_eq, resolved_of_room List.nodup_nil (List.forall_mem_nil _)]
  · simp only [List.length_nil]; omega
  · simp only [List.length_nil]; omega

end Program

/-! ## Deciding under two limits -/

namespace Context
open Decide

section Limits
variable {t : Target} {l l' : Nat}
  (h : ∀ r d, t.program.topmost t.policy l r d = t.program.topmost t.policy l' r d)
include h

theorem topmost_congr (d : DeclId) : (mk t l).topmost d = (mk t l').topmost d := by
  unfold topmost
  exact bind_congr fun s => congrArg pure (h s.rewrites d)

theorem nestedVerdict_congr (inherit : DeclId → Decide Unit) (d function : DeclId)
    (type : TypeId) :
    (mk t l).nestedVerdict inherit d function type =
      (mk t l').nestedVerdict inherit d function type := by
  unfold nestedVerdict
  rw [topmost_congr h]
  rfl

theorem verdict_congr (inherit : DeclId → Decide Unit) (d refined : DeclId) (type : TypeId) :
    (mk t l).verdict inherit d refined type = (mk t l').verdict inherit d refined type := by
  unfold verdict
  simp only [nestedVerdict_congr h]
  rfl

theorem settleWithin_congr (fuel : Nat) (d topmost : DeclId) :
    (mk t l).settleWithin fuel d topmost = (mk t l').settleWithin fuel d topmost := by
  induction fuel generalizing d topmost with
  | zero => rfl
  | succ fuel ih =>
    unfold settleWithin
    simp only [ih, verdict_congr h]
    rfl

theorem settle_congr (d topmost : DeclId) :
    (mk t l).settle d topmost = (mk t l').settle d topmost :=
  settleWithin_congr h _ d topmost

theorem decideMethod_congr (d : DeclId) : (mk t l).decideMethod d = (mk t l').decideMethod d := by
  unfold decideMethod
  simp only [topmost_congr h, settle_congr h]
  rfl

theorem decideValue_congr (d : DeclId) : (mk t l).decideValue d = (mk t l').decideValue d := by
  unfold decideValue
  simp only [topmost_congr h, settle_congr h]

theorem visitVariable_congr (d : DeclId) :
    (mk t l).visitVariable d = (mk t l').visitVariable d := by
  unfold visitVariable
  simp only [settle_congr h]
  rfl

theorem act_congr (a : Act) : a.run (mk t l) = a.run (mk t l') := by
  cases a with
  | iterated location d =>
    unfold Act.run visitIterated
    simp only [visitVariable_congr h]
    rfl
  | variable_ d => exact visitVariable_congr h d
  | value d =>
    unfold Act.run visitValue
    simp only [decideValue_congr h]
    rfl
  | method d =>
    unfold Act.run visitMethod
    simp only [decideMethod_congr h]
    rfl
  | decide d => exact decideValue_congr h d
  | _ => rfl

theorem decideUnit_congr (u : SourceUnit) : (mk t l).decideUnit u = (mk t l').decideUnit u := by
  have hstep : Step.run (mk t l) = Step.run (mk t l') := by
    funext st
    unfold Step.run
    rw [act_congr h]
  rw [decideUnit_eq, decideUnit_eq, perform, perform, hstep]

end Limits

/-- Limits beyond the number of declarations decide all units alike. -/
theorem decideUnits_of_limit {t : Target} {l l' : Nat} (h : t.program.decls.size + 1 ≤ l)
    (h' : t.program.decls.size + 1 ≤ l') (m : Marks) (units : List SourceUnit) :
    (mk t l).decideUnits m units = (mk t l').decideUnits m units := by
  have hunit : (mk t l).decideUnit = (mk t l').decideUnit := by
    funext u
    exact decideUnit_congr (fun _ d => Program.topmost_of_limit h h' d) u
  unfold decideUnits
  rw [hunit]

end Context

end Unbox
