import Unbox.Proofs.Coverage

/-!
# A declaration is decided once

* `Write.unboxed_of_not_forced` : no write changes a decision but for what is forced;
* `Write.stays_boxed` : no write changes the decision for what is boxed;
* `Decide.Follows.decideUnit` : to decide a unit forces nothing but what the unit forces;
* `Context.decideUnit_decides_once` : during a unit no decision changes but for what the unit
  forces, and if nothing fails all of that is boxed in the end.
-/

namespace Unbox

namespace Write
variable {t : Target} {D F : DeclId → Prop} {m m' : Marks} {d : DeclId}

/-- A write leaves the decision for `d`, unless `d` is undecided or forced. -/
theorem unboxed_cases (h : Write t D F m m') (d : DeclId) :
    m'.unboxed d = m.unboxed d ∨ m.unboxed d = none ∨ F d ∧ m'.unboxed d = some false := by
  cases h with
  | decide e b _ _ =>
    rw [Marks.unboxed_setUnboxed]
    split
    · next he =>
      subst he
      cases m.unboxed d with
      | none => exact .inr (.inl rfl)
      | some b' => exact .inl rfl
    · exact .inl rfl
  | force e _ he =>
    rw [Marks.unboxed_forceBoxed]
    split
    · next hde => exact .inr (.inr ⟨hde ▸ he, rfl⟩)
    · exact .inl rfl
  | erase e _ | distrust e _ =>
    refine .inl ?_
    simp only [Marks.unboxed, Marks.markErased, Marks.markUntrusted, Marks.updateDeclaration,
      Column.get_update]
    split <;> rfl
  | raw | underlying | bounds => exact .inl rfl

theorem unboxed_of_untouched (h : Write t D F m m') (hD : ¬ D d) (hF : ¬ F d) :
    m'.unboxed d = m.unboxed d := by
  cases h with
  | decide e b _ he =>
    have hde : d ≠ e := fun hde => hD (hde ▸ he)
    rw [Marks.unboxed_setUnboxed, if_neg hde]
  | force e _ he =>
    have hde : d ≠ e := fun hde => hF (hde ▸ he)
    rw [Marks.unboxed_forceBoxed, if_neg hde]
  | erase e _ | distrust e _ =>
    simp only [Marks.unboxed, Marks.markErased, Marks.markUntrusted, Marks.updateDeclaration,
      Column.get_update]
    split <;> rfl
  | raw | underlying | bounds => rfl

theorem stays_decided (h : Write t D F m m') (hd : m.unboxed d ≠ none) : m'.unboxed d ≠ none := by
  rcases h.unboxed_cases d with h | h | h
  · rwa [h]
  · exact absurd h hd
  · rw [h.2]
    simp

theorem unboxed_of_not_forced {b : Bool} (h : Write t D F m m') (hd : ¬ F d)
    (hb : m.unboxed d = some b) : m'.unboxed d = some b := by
  rcases h.unboxed_cases d with h | h | h
  · rw [h, hb]
  · cases hb.symm.trans h
  · exact absurd h.1 hd

theorem stays_boxed (h : Write t D F m m') (hb : m.unboxed d = some false) :
    m'.unboxed d = some false := by
  rcases h.unboxed_cases d with h | h | h
  · rw [h, hb]
  · cases hb.symm.trans h
  · exact h.2

end Write

theorem Leads.stays_boxed {t : Target} {D F : DeclId → Prop} {s s' : Decisions} {d : DeclId}
    (h : Leads (Write t D F) s s') (hb : s.marks.unboxed d = some false) :
    s'.marks.unboxed d = some false :=
  h.preserves (P := fun m => m.unboxed d = some false) (fun _ _ => Write.stays_boxed) hb

namespace Decide.Follows
variable {c : Context} {u : SourceUnit}

theorem itinerary {st : Step} (h : st ∈ c.itinerary u) :
    Follows (Write c.toTarget ⊤ (· ∈ u.forced)) (st.run c) :=
  (step st).mono fun _ _ => Write.mono (fun _ => id) fun _ hd => c.mem_forced_iff.mpr ⟨st, h, hd⟩

theorem decideUnit (u : SourceUnit) :
    Follows (Write c.toTarget ⊤ (· ∈ u.forced)) (c.decideUnit u) := by
  rw [Context.decideUnit_eq]
  exact forM fun st hst => itinerary hst

end Decide.Follows

namespace Context
open Decide
variable (c : Context)

theorem boxed_of_act {a : Act} {d : DeclId} {s : Decisions} (hd : d ∈ a.forced)
    (h : result (a.run c) s = .ok ()) : (after (a.run c) s).marks.unboxed d = some false := by
  have forces (s : Decisions) : (after (force d) s).marks.unboxed d = some false := by
    rw [after_force, Marks.unboxed_forceBoxed, if_pos rfl]
  cases a with
  | force l e =>
    obtain rfl := List.mem_singleton.mp hd
    obtain ⟨x, hx, -⟩ := result_bind_eq_ok.mp h
    rw [Act.run, after_bind_of_ok hx]
    exact forces _
  | literal l e =>
    obtain rfl := List.mem_singleton.mp hd
    obtain ⟨x, hx, -⟩ := result_bind_eq_ok.mp h
    rw [Act.run, after_bind_of_ok hx]
    exact forces _
  | iterated l e =>
    obtain rfl := List.mem_singleton.mp hd
    obtain ⟨x, hx, -⟩ := result_bind_eq_ok.mp h
    rw [Act.run, visitIterated, after_bind_of_ok hx, after_bind_of_ok (result_force d _)]
    exact (Follows.visitVariable (D := ⊤) (F := ⊥) (fun _ => trivial) d _).stays_boxed (forces _)
  | _ => cases hd

theorem boxed_of_step {st : Step} {d : DeclId} {s : Decisions} (hd : d ∈ st.act.forced)
    (h : result (st.run c) s = .ok ()) : (after (st.run c) s).marks.unboxed d = some false := by
  rw [Step.run, result_between] at h
  rw [Step.run, after_between]
  exact c.boxed_of_act hd h

theorem boxed_of_decideUnit {u : SourceUnit} {d : DeclId} {s : Decisions} (hd : d ∈ u.forced)
    (h : result (c.decideUnit u) s = .ok ()) :
    (after (c.decideUnit u) s).marks.unboxed d = some false := by
  rw [decideUnit_eq] at h ⊢
  obtain ⟨st, hst, hd⟩ := c.mem_forced_iff.mp hd
  refine holds_of_forM (P := fun m => m.unboxed d = some false) (fun _ _ => Write.stays_boxed)
    (fun st hst => Follows.itinerary (u := u) hst) hst (fun s' _ _ hs' => ?_) h
  exact c.boxed_of_step hd hs'

/-- Whether the unit fails or not, between any two moments of its run no decision changes but for
what the unit forces. If it does not fail, all that it forces is boxed in the end, whatever was
decided before. -/
theorem decideUnit_decides_once (u : SourceUnit) (s : Decisions) :
    (∃ during, (after (c.decideUnit u) s).moments = during ++ s.moments ∧
      (during ++ [s.marks]).Pairwise fun later earlier =>
        ∀ d, d ∉ u.forced → ∀ b, earlier.unboxed d = some b → later.unboxed d = some b) ∧
    (result (c.decideUnit u) s = .ok () →
      ∀ d ∈ u.forced, (after (c.decideUnit u) s).marks.unboxed d = some false) := by
  refine ⟨(Follows.decideUnit u s).history ?_ ?_, fun h d hd => c.boxed_of_decideUnit hd h⟩
  · exact fun m m' hw d hd b hb => hw.unboxed_of_not_forced hd hb
  · exact fun h h' d hd b hb => h' d hd b (h d hd b hb)

end Context

end Unbox
