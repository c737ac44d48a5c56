import Mathlib.Logic.Relation
import Unbox.Proofs.Reasons
import Unbox.Proofs.Totality

/-!
# Nothing is unboxed without a reason

A wrong decision to unbox would be a miscompilation. Decisions are handed on from one declaration to
the next, so the reason may lie with another declaration.

* `Target.Stack u r` : the rewrites `r` are in force at some step of the unit;
* `Context.Link u d e` : under such rewrites `d` takes its decision from `e`;
* `Context.Justified u d` : links lead from `d` to a declaration whose own type is a reason;
* `Context.allows_justified` : every act of the walk unboxes justified declarations only;
* `Context.unboxed_justified` : so does the whole walk over a unit.
-/

namespace Unbox

/-- The rewrites in force at some step of the unit. -/
def Target.Stack (t : Target) (u : SourceUnit) (r : Rewrites) : Prop :=
  ∃ st ∈ t.itinerary u, r = ⟨st.standing⟩

/-- Only declarations that `J` justifies are unboxed. -/
def Marks.UnboxedOnly (J : DeclId → Prop) (m : Marks) : Prop := ∀ d, m.unboxed d = some true → J d

namespace Marks.UnboxedOnly
variable {J : DeclId → Prop} {m : Marks}

theorem setUnboxed (h : m.UnboxedOnly J) {d : DeclId} {b : Bool} (hb : b = true → J d) :
    (m.setUnboxed d b).UnboxedOnly J := by
  intro e he
  rw [Marks.unboxed_setUnboxed] at he
  split at he
  · next hed =>
    subst hed
    cases hm : m.unboxed e with
    | none => exact hb (by simpa [hm] using he)
    | some b' => exact h e (by simpa [hm] using he)
  · exact h e he

theorem forceBoxed (h : m.UnboxedOnly J) (d : DeclId) : (m.forceBoxed d).UnboxedOnly J := by
  intro e he
  rw [Marks.unboxed_forceBoxed] at he
  split at he
  · cases he
  · exact h e he

/-- A write that neither decides nor forces unboxes nothing. -/
theorem write {t : Target} {m' : Marks} (h : m.UnboxedOnly J)
    (hw : Write t (fun _ => False) (fun _ => False) m m') : m'.UnboxedOnly J := by
  intro d hd
  rw [hw.unboxed_of_untouched id id] at hd
  exact h d hd

end Marks.UnboxedOnly

namespace Context
open Decide Relation
variable (c : Context)

/-- Under rewrites of the unit, `d` takes its decision from `e`. -/
def Link (u : SourceUnit) (d e : DeclId) : Prop := ∃ r, c.Stack u r ∧ c.Inherits r d e

/-- Links lead from `d` to a declaration whose own type is a reason to unbox it, under rewrites of
the unit. -/
def Justified (u : SourceUnit) (d : DeclId) : Prop :=
  ∃ e, ReflTransGen (c.Link u) d e ∧ ∃ r, c.Stack u r ∧ c.OwnReason r e

variable {c} {u : SourceUnit} {r : Rewrites}

theorem maintains_of_quiet {α : Type} {J : DeclId → Prop} {act : Decide α}
    (h : Follows (Write c.toTarget (fun _ => False) fun _ => False) act) :
    Maintains (Under r (Marks.UnboxedOnly J)) act :=
  h.maintains fun _ _ _ hw hm => ⟨hm.1, hm.2.write hw⟩

/-- What an act forces or notes unboxes nothing. -/
theorem allows_justified (hr : c.Stack u r) (a : Act) :
    c.Allows r (Marks.UnboxedOnly (c.Justified u)) (c.Justified u) a where
  unboxed m d hm hd := hm d hd
  decide m d b hm hb := hm.setUnboxed hb
  underlying m a v hm := hm
  bounds m d hm := hm
  own d hd := ⟨d, .refl, r, hr, hd⟩
  inherits d e hd he := by
    obtain ⟨z, hz, hown⟩ := he
    exact ⟨z, .head ⟨r, hr, hd⟩ hz, hown⟩
  forces d _ m hm := hm.forceBoxed d
  erasure d _ := maintains_of_quiet (.markErasure d)
  rawness d _ := maintains_of_quiet (.markRaw d)

/-- If nothing is decided at the start, then after the walk over a unit, whether it fails or not,
links lead from every unboxed declaration to one whose own type is a reason to unbox it. -/
theorem unboxed_justified (c : Context) (u : SourceUnit) (m : Marks)
    (h : ∀ d, m.unboxed d = none) {d : DeclId}
    (hd : (after (c.decideUnit u) { marks := m }).marks.unboxed d = some true) :
    ∃ e, ReflTransGen (c.Link u) d e ∧ ∃ r, c.Stack u r ∧ c.OwnReason r e := by
  have hstart : Under {} (Marks.UnboxedOnly (c.Justified u)) m {} :=
    ⟨rfl, fun e he => nomatch (h e).symm.trans he⟩
  have hwalk : Maintains (Under {} (Marks.UnboxedOnly (c.Justified u))) (c.decideUnit u) :=
    maintains_decideUnit fun st hst => allows_justified ⟨st, hst, rfl⟩ st.act
  exact (hwalk { marks := m } hstart).2 d hd

/-- The parameter of the literal is unboxed since it stands for that of the method. -/
theorem unboxed_justified_specification :
    let c : Context := ⟨⟨.specified, .standard⟩, 8⟩
    let u : SourceUnit := .specification
    (∀ d, ({} : Marks).unboxed d = none) ∧
      (after (c.decideUnit u) { marks := {} }).marks.unboxed ⟨5⟩ = some true ∧
      ∃ e, ReflTransGen (c.Link u) ⟨5⟩ e ∧ ∃ r, c.Stack u r ∧ c.OwnReason r e := by
  intro c u
  have hnone : ∀ d, ({} : Marks).unboxed d = none := fun _ => rfl
  have hd : (after (c.decideUnit u) { marks := {} }).marks.unboxed ⟨5⟩ = some true := by
    decide +kernel
  exact ⟨hnone, hd, unboxed_justified c u {} hnone hd⟩

end Context

end Unbox
