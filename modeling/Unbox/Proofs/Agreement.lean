import Unbox.Proofs.Settling
import Unbox.Proofs.Topmost

/-!
# Overrides agree with the declaration that they refine in the end

A member is decided as its topmost declaration is. This can fail for one reason only: another
declaration takes its decision from the member itself, and the member is then settled by its own
type as long as it is undecided.

* `Program.Agrees d top m` : `d` is undecided, or decided like `top`, or a class parameter that
  stands for `d` is decided;
* `Overrides c d top` : no other declaration has `d` for its topmost one;
* `Context.keeps_settleWithin` : to decide any declaration keeps the agreement;
* `Context.keeps_act` : so does every act that forces neither of the two.
-/

namespace Unbox

/-- `d` is undecided, or decided like `top`, or a class parameter that stands for it is decided. -/
def Program.Agrees (p : Program) (d top : DeclId) (m : Marks) : Prop :=
  m.unboxed d = none ∨ (m.unboxed top ≠ none ∧ m.unboxed d = m.unboxed top) ∨
    ∃ x, p.StandsFor x d ∧ m.unboxed x ≠ none

/-- To decide `d` as `top` is decided makes the two agree. -/
theorem Program.Agrees.setUnboxed {p : Program} {d top : DeclId} {m : Marks} {b : Bool}
    (h : p.Agrees d top m) (hne : top ≠ d) (hb : m.unboxed top = some b) :
    p.Agrees d top (m.setUnboxed d b) := by
  cases hd : m.unboxed d with
  | none =>
    refine .inr (.inl ⟨?_, ?_⟩)
    · rw [Marks.unboxed_setUnboxed, if_neg hne, hb]
      simp
    · rw [Marks.unboxed_setUnboxed, if_pos rfl, Marks.unboxed_setUnboxed, if_neg hne, hd, hb]
      rfl
  | some b' =>
    have hm : m.setUnboxed d b = m := by simp [Marks.setUnboxed, hd]
    rwa [hm]

theorem Write.agrees {t : Target} {D F : DeclId → Prop} {m m' : Marks} {d top : DeclId}
    (h : Write t D F m m') (hD : ¬ D d) (hd : ¬ F d) (ht : ¬ F top)
    (ha : t.program.Agrees d top m) : t.program.Agrees d top m' := by
  have hd' := h.unboxed_of_untouched hD hd
  rcases ha with ha | ⟨hne, ha⟩ | ⟨x, hx, ha⟩
  · exact .inl (hd'.trans ha)
  · obtain ⟨b, hb⟩ := Option.ne_none_iff_exists'.mp hne
    have hb' := h.unboxed_of_not_forced ht hb
    refine .inr (.inl ⟨h.stays_decided hne, ?_⟩)
    rw [hd', ha, hb, hb']
  · exact .inr (.inr ⟨x, hx, h.stays_decided ha⟩)

/-- `d` is a declaration of its own, and no other declaration takes it for its topmost one. -/
structure Overrides (c : Context) (d top : DeclId) : Prop where
  ne : top ≠ d
  declaration : ∃ x, c.program.decl? d = some x ∧ x.isParameter = false
  topmost : ∀ r e, e ≠ d → c.program.topmost c.policy c.limit r e ≠ d
  counterpart : ∀ f refined e, c.positionalCounterpart f refined e ≠ some d
  named : ∀ x y, c.program.decl? d = some x → c.program.decl? top = some y → y.isMethod = true →
    x.name.isSome = true

namespace Context
open Decide
variable {c : Context} {d top : DeclId}

/-- `d` agrees with `top`, which is its topmost declaration under the rewrites in force. -/
def Invariant (c : Context) (d top : DeclId) (m : Marks) (r : Rewrites) : Prop :=
  c.program.Agrees d top m ∧ c.program.topmost c.policy c.limit r d = top

theorem keeps_of_follows {α : Type} {D F : DeclId → Prop} {act : Decide α}
    (h : Follows (Write c.toTarget D F) act) (hD : ¬ D d) (hd : ¬ F d) (ht : ¬ F top) :
    Keeps (c.Invariant d top) act :=
  h.keeps fun _ _ _ hw hm => ⟨hw.agrees hD hd ht hm.1, hm.2⟩

theorem keeps_of_quiet {α : Type} {act : Decide α} (h : Follows (Write c.toTarget ⊥ ⊥) act) :
    Keeps (c.Invariant d top) act := keeps_of_follows h id id id

theorem keeps_lookup_bind {β : Type} {x : DeclId} {l : Location} {f : Declaration → Decide β}
    (h : ∀ y, c.program.decl? x = some y → Keeps (c.Invariant d top) (f y)) :
    Keeps (c.Invariant d top) (c.lookupAt l x >>= f) := by
  intro s b hs hb
  obtain ⟨y, hy, hf⟩ := result_bind_eq_ok.mp hb
  rw [after_bind_of_ok hy]
  rw [lookupAt, result_ofExcept] at hy
  rw [lookupAt, after_ofExcept] at hf ⊢
  exact h y (Program.decl_eq_ok_iff.mp hy) s b hs hf

theorem keeps_topmost_bind {β : Type} {x : DeclId} {f : DeclId → Decide β}
    (h : ∀ r, c.program.topmost c.policy c.limit r d = top →
      Keeps (c.Invariant d top) (f (c.program.topmost c.policy c.limit r x))) :
    Keeps (c.Invariant d top) (c.topmost x >>= f) := by
  intro s b hs hb
  rw [result_topmost_bind] at hb
  rw [after_topmost_bind]
  exact h s.rewrites hs.2 s b hs hb

section Verdict
variable {inherit : DeclId → Decide Unit}

theorem keeps_inheritedFrom {x : DeclId} (h : Keeps (c.Invariant d top) (inherit x)) :
    Keeps (c.Invariant d top) (c.inheritedFrom inherit x) := by
  refine .bind h fun _ => .bind (keeps_of_quiet (.count _)) fun _ => ?_
  exact keeps_lookup_bind fun y _ => keeps_of_quiet (.unboxed x)

theorem keeps_nestedVerdict (ho : Overrides c d top)
    (h : ∀ x, x ≠ d → Keeps (c.Invariant d top) (inherit x)) (x function : DeclId)
    (type : TypeId) : Keeps (c.Invariant d top) (c.nestedVerdict inherit x function type) := by
  refine keeps_topmost_bind fun r _ => .ite (fun _ => .pure _) fun hne => ?_
  refine keeps_inheritedFrom (h _ ?_)
  cases hc : c.positionalCounterpart function _ x with
  | some e =>
    intro he
    exact ho.counterpart _ _ _ (hc.trans (congrArg some he))
  | none =>
    intro he
    have hf : function ≠ d := fun hf => hne (he.trans hf.symm)
    exact ho.topmost r function hf he

/-- A verdict keeps the agreement if it asks no one for the decision of `d`. -/
theorem keeps_verdict (ho : Overrides c d top)
    (h : ∀ x, x ≠ d → Keeps (c.Invariant d top) (inherit x)) {x refined : DeclId}
    (hr : refined ≠ x → refined ≠ d) (type : TypeId) :
    Keeps (c.Invariant d top) (c.verdict inherit x refined type) := by
  unfold verdict
  refine keeps_lookup_bind fun y hy => .ite (fun _ => .pure _) fun _ => ?_
  refine .ite (fun hne => keeps_inheritedFrom (h refined (hr hne))) fun _ => ?_
  refine .bind (keeps_of_quiet (.isErasedTypeParameter type)) fun erased => ?_
  refine .bind (keeps_of_quiet (.ofExcept _)) fun nested => ?_
  dsimp only
  refine .ite (fun _ => .pure _) fun _ => .ite (fun _ => .pure _) fun _ => ?_
  refine .ite (fun _ => ?_) fun _ => .pure _
  refine .bind (keeps_of_quiet (.ofExcept _)) fun function => ?_
  exact .ite (fun _ => keeps_nestedVerdict ho h x function type) fun _ => .pure _

/-- The verdict for `d` is the decision of `top`, so the two agree. -/
theorem keeps_conclude_override (ho : Overrides c d top)
    (h : ∀ x, x ≠ d → Keeps (c.Invariant d top) (inherit x)) (type : TypeId) :
    Keeps (c.Invariant d top) (deciding d (c.verdict inherit d top type) >>= conclude d) := by
  intro s _ hs hok
  obtain ⟨v, hv, -⟩ := result_bind_eq_ok.mp hok
  rw [after_bind_of_ok hv]
  have hs' := Keeps.deciding d (keeps_verdict ho h (fun _ => ho.ne) type) s v hs hv
  obtain ⟨x, hx, hp⟩ := ho.declaration
  have hvt : v = (after (deciding d (c.verdict inherit d top type)) s).marks.unboxed top := by
    rcases verdict_of_refined hx ho.ne hv with ⟨hf, -⟩ | ⟨-, hvt, hm⟩
    · simp [Declaration.isFunctionalParameter, hp] at hf
    · exact hvt.trans (congrArg (·.unboxed top) hm.symm)
  generalize after (deciding d _) s = u at hs' hvt
  cases v with
  | none => exact hs'
  | some b =>
    exact ⟨hs'.1.setUnboxed ho.ne hvt.symm, hs'.2⟩

/-- The verdict for another declaration: if it is that of `d`, then `d` is undecided or a parameter
that stands for it is decided. -/
theorem keeps_conclude_other (ho : Overrides c d top)
    (h : ∀ x, x ≠ d → Keeps (c.Invariant d top) (inherit x))
    (hw : ∀ x, Follows (Write c.toTarget ⊤ ⊥) (inherit x)) {x refined : DeclId}
    {y : Declaration} (hx : c.program.decl? x = some y) (hxd : x ≠ d)
    (hr : refined = d → c.program.StandsFor x d) (type : TypeId) :
    Keeps (c.Invariant d top) (deciding x (c.verdict inherit x refined type) >>= conclude x) := by
  by_cases hrd : refined = d
  · intro s _ hs hok
    obtain ⟨v, hv, -⟩ := result_bind_eq_ok.mp hok
    have hst := hr hrd
    subst hrd
    rw [after_bind_of_ok hv]
    have hvd : v = some false ∨
        v = (after (deciding x (c.verdict inherit x refined type)) s).marks.unboxed refined := by
      rcases verdict_of_refined hx hxd.symm hv with ⟨-, hvd⟩ | ⟨-, hvd, hm⟩
      · exact .inl hvd
      · exact .inr (hvd.trans (congrArg (·.unboxed refined) hm.symm))
    obtain ⟨-, hrw, -⟩ := Follows.deciding x (Follows.verdict x refined type hw) s
    generalize after (deciding x _) s = u at hvd hrw
    cases v with
    | none =>
      rcases hvd with hvd | hvd
      · cases hvd
      · exact ⟨.inl hvd.symm, hrw ▸ hs.2⟩
    | some b =>
      refine ⟨.inr (.inr ⟨x, hst, ?_⟩), hrw ▸ hs.2⟩
      change (u.marks.setUnboxed x b).unboxed x ≠ none
      rw [Marks.unboxed_setUnboxed, if_pos rfl]
      simp
  · refine .bind (.deciding x (keeps_verdict ho h (fun _ => hrd) type)) fun v => ?_
    cases v with
    | none => exact .pure ()
    | some b =>
      have hd := Program.hasDecl_of_decl? hx
      refine keeps_of_follows (D := (· = x)) (F := ⊥) (.modifyMarks fun m => ?_) hxd.symm id id
      exact .decide x b hd rfl

end Verdict

/-- To decide a declaration keeps the agreement, if `d` itself is decided as an override of `top`. By
induction on the fuel, which only the declarations inherited from need. -/
theorem keeps_settleWithin (ho : Overrides c d top) (fuel : Nat) {x e : DeclId}
    (hd : x = d → e = top) (he : x ≠ d → e ≠ d) :
    Keeps (c.Invariant d top) (c.settleWithin fuel x e) := by
  induction fuel generalizing x e with
  | zero => exact .pure ()
  | succ fuel ih =>
    have inherits (z : DeclId) (hz : z ≠ d) :
        Keeps (c.Invariant d top) (c.inheritWithin fuel z) := by
      refine keeps_lookup_bind fun _ _ => .bind (keeps_of_quiet (.unboxed z)) fun _ => ?_
      exact .ite (fun _ => ih (fun h => absurd h hz) fun _ => hz) fun _ => .pure ()
    have writes (z : DeclId) : Follows (Write c.toTarget ⊤ ⊥) (c.inheritWithin fuel z) :=
      inheritWithin_follows (fun _ => trivial) fuel z
    rw [settleWithin_succ]
    refine keeps_lookup_bind fun y hy => ?_
    split
    · next type _ =>
      refine .bind (keeps_of_quiet (.inheritUnderlying x _ type)) fun _ => ?_
      refine .bind (keeps_of_quiet (.unboxed x)) fun flag => .ite (fun _ => .pure ()) fun _ => ?_
      refine .bind (keeps_of_quiet .get) fun s => .ite (fun _ => ?_) fun _ => ?_
      · exact .bind (keeps_of_quiet (.count _)) fun _ => .pure ()
      · by_cases hxd : x = d
        · subst hxd
          obtain ⟨y', hy', hp⟩ := ho.declaration
          cases hy.symm.trans hy'
          rw [hd rfl, source_of_not_parameter hp]
          exact keeps_conclude_override ho inherits type
        · refine keeps_conclude_other ho inherits writes hy hxd (fun hs => ?_) type
          rcases source_cases (e := e) hy with hse | hst
          · exact absurd (hse.symm.trans hs) (he hxd)
          · rwa [hs] at hst
    · exact .pure ()

/-! ## Acts -/

theorem keeps_settle (ho : Overrides c d top) {r : Rewrites}
    (hr : c.program.topmost c.policy c.limit r d = top) (x : DeclId) :
    Keeps (c.Invariant d top) (c.settle x (c.program.topmost c.policy c.limit r x)) := by
  refine keeps_settleWithin ho _ (fun hx => ?_) (ho.topmost r x)
  rw [hx, hr]

theorem keeps_decideValue (ho : Overrides c d top) (x : DeclId) :
    Keeps (c.Invariant d top) (c.decideValue x) :=
  keeps_topmost_bind fun _ hr => keeps_settle ho hr x

theorem keeps_decideMethod (ho : Overrides c d top) (x : DeclId) :
    Keeps (c.Invariant d top) (c.decideMethod x) := by
  refine keeps_topmost_bind fun r hr => keeps_lookup_bind fun z hz => ?_
  refine .ite (fun _ => .pure ()) fun hm => keeps_lookup_bind fun y hy => ?_
  refine .ite (fun _ => keeps_settle ho hr x) fun hn => ?_
  have hxd : d ≠ x := by
    rintro rfl
    rw [hr] at hz
    exact hn (ho.named y z hy hz (by simpa using hm))
  refine keeps_of_follows (D := (· = x)) (F := ⊥) (.modifyMarks fun m => ?_) hxd id id
  exact .decide x false (Program.hasDecl_of_decl? hy) rfl

theorem keeps_visitVariable (ho : Overrides c d top) {x : DeclId} (hx : x ≠ d) :
    Keeps (c.Invariant d top) (c.visitVariable x) := by
  refine .bind (keeps_of_quiet (.count _)) fun _ => ?_
  refine .bind (keeps_of_quiet (.markErasure x)) fun _ => ?_
  refine .bind (keeps_of_quiet (.markRaw x)) fun _ => ?_
  exact keeps_settleWithin ho _ (fun h => absurd h hx) fun _ => hx

theorem keeps_force {x : DeclId} (hx : c.program.hasDecl x = true) (hd : d ≠ x) (ht : top ≠ x) :
    Keeps (c.Invariant d top) (force x) :=
  keeps_of_follows (D := ⊥) (F := (· = x)) (.force hx rfl) id hd ht

/-- An act keeps the agreement if it neither forces one of the two nor takes the override for a
variable. -/
theorem keeps_act (ho : Overrides c d top) {a : Act} (hd : d ∉ a.forced) (ht : top ∉ a.forced)
    (hv : a ≠ .variable_ d) : Keeps (c.Invariant d top) (a.run c) := by
  cases a with
  | check l x => exact keeps_lookup_bind fun _ _ => .pure ()
  | count => exact keeps_of_quiet (.count _)
  | strip head body => exact keeps_of_quiet (.stripUnderlying head body)
  | force l x =>
    simp only [Act.forced, List.mem_singleton] at hd ht
    exact keeps_lookup_bind fun _ hx => keeps_force (Program.hasDecl_of_decl? hx) hd ht
  | literal l x =>
    simp only [Act.forced, List.mem_singleton] at hd ht
    refine keeps_lookup_bind fun _ hx => .bind (keeps_of_quiet (.count _)) fun _ => ?_
    exact keeps_force (Program.hasDecl_of_decl? hx) hd ht
  | iterated l x =>
    simp only [Act.forced, List.mem_singleton] at hd ht
    refine keeps_lookup_bind fun _ hx => ?_
    refine .bind (keeps_force (Program.hasDecl_of_decl? hx) hd ht) fun _ => ?_
    exact keeps_visitVariable ho (Ne.symm hd)
  | variable_ x =>
    refine keeps_visitVariable ho ?_
    rintro rfl
    exact hv rfl
  | value x =>
    refine .bind (keeps_of_quiet (.markErasure x)) fun _ => ?_
    exact .bind (keeps_of_quiet (.markRaw x)) fun _ => keeps_decideValue ho x
  | method x =>
    refine .bind (keeps_of_quiet (.markErasure x)) fun _ => ?_
    exact .bind (keeps_of_quiet (.markRaw x)) fun _ => keeps_decideMethod ho x
  | decide x => exact keeps_decideValue ho x
  | typeParameter l x => exact keeps_of_quiet (.visitTypeParameter l x)
  | parameter x =>
    refine keeps_lookup_bind fun _ _ => ?_
    exact .bind (keeps_of_quiet (.ofExcept _)) fun _ => .pure ()

end Context

end Unbox
