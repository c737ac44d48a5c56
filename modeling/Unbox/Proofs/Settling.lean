import Unbox.Proofs.Once

/-!
# How a declaration is settled

* `Context.verdict_of_refined` : a verdict that is inherited is the decision of the declaration
  inherited from;
* `Context.verdict_of_own` : there is always a verdict for what is no parameter and inherits nothing;
* `Context.source_cases` : the declaration that a decision is taken from is the one given, or the
  one that a class parameter stands for;
* `Context.settleWithin_decides` : what is no parameter is decided once it is settled with a topmost
  declaration that is no parameter either.
-/

namespace Unbox

/-- `x` is a parameter of a class, and the declaration that it refines directly is `d`. -/
def Program.StandsFor (p : Program) (x d : DeclId) : Prop :=
  ∃ y owner, p.decl? x = some y ∧ y.isParameter = true ∧ y.scope = .declaration owner ∧
    (p.decl? owner).any Declaration.isClass = true ∧ y.refined = some d

namespace Context
open Decide
variable {c : Context}

theorem lookup_bind_of_decl? {β : Type} {x : DeclId} {y : Declaration} {f : Declaration → Decide β}
    (h : c.program.decl? x = some y) : c.lookup x >>= f = f y := by
  have hy : c.program.decl x .unknown = .ok y := Program.decl_eq_ok_iff.mpr h
  rw [lookup, lookupAt, hy]
  rfl

theorem result_topmost_bind {β : Type} (x : DeclId) (f : DeclId → Decide β) (s : Decisions) :
    result (c.topmost x >>= f) s =
      result (f (c.program.topmost c.policy c.limit s.rewrites x)) s := by
  rw [topmost, bind_assoc, result_bind, result_get, after_get]
  dsimp only
  rw [pure_bind]

theorem after_topmost_bind {β : Type} (x : DeclId) (f : DeclId → Decide β) (s : Decisions) :
    after (c.topmost x >>= f) s =
      after (f (c.program.topmost c.policy c.limit s.rewrites x)) s := by
  rw [topmost, bind_assoc, after_bind, result_get, after_get]
  dsimp only
  rw [pure_bind]

/-! ## The verdict -/

section Verdict
variable {inherit : DeclId → Decide Unit}

/-- The decision of `x` as it is once `inherit` has settled it. -/
theorem inheritedFrom_eq_ok {x : DeclId} {s : Decisions} {v : Option Bool}
    (h : result (c.inheritedFrom inherit x) s = .ok v) :
    result (inherit x) s = .ok () ∧ v = (after (inherit x) s).marks.unboxed x ∧
      (after (c.inheritedFrom inherit x) s).marks = (after (inherit x) s).marks := by
  unfold inheritedFrom at h ⊢
  obtain ⟨⟨⟩, hi, h⟩ := result_bind_eq_ok.mp h
  obtain ⟨⟨⟩, hc, h⟩ := result_bind_eq_ok.mp h
  obtain ⟨y, hy, h⟩ := result_bind_eq_ok.mp h
  rw [after_bind_of_ok hi, after_bind_of_ok hc, after_bind_of_ok hy]
  rw [lookup, lookupAt, after_ofExcept] at h ⊢
  exact ⟨hi, (Except.ok.inj h).symm, rfl⟩

theorem verdict_of_refined {x refined : DeclId} {y : Declaration} {type : TypeId} {s : Decisions}
    {v : Option Bool} (hx : c.program.decl? x = some y) (hne : refined ≠ x)
    (h : result (c.verdict inherit x refined type) s = .ok v) :
    (y.isFunctionalParameter = true ∧ v = some false) ∨
      result (inherit refined) s = .ok () ∧ v = (after (inherit refined) s).marks.unboxed refined ∧
        (after (c.verdict inherit x refined type) s).marks = (after (inherit refined) s).marks := by
  unfold verdict at h ⊢
  rw [lookup_bind_of_decl? hx] at h ⊢
  split at h
  · next hf =>
    rw [result_pure] at h
    simp only [Bool.and_eq_true] at hf
    exact .inl ⟨hf.1, (Except.ok.inj h).symm⟩
  · next hf =>
    rw [if_neg hf, if_pos hne]
    exact .inr (inheritedFrom_eq_ok h)

theorem verdict_of_own {x : DeclId} {y : Declaration} {type : TypeId} {s : Decisions}
    {v : Option Bool} (hx : c.program.decl? x = some y) (hp : y.isParameter = false)
    (h : result (c.verdict inherit x x type) s = .ok v) : v ≠ none := by
  have hf : y.isFunctionalParameter = false := by simp [Declaration.isFunctionalParameter, hp]
  have hv : y.isValueParameter = false := by simp [Declaration.isValueParameter, hp]
  unfold verdict at h
  rw [lookup_bind_of_decl? hx] at h
  simp only [hf, hv, Bool.false_and, Bool.false_eq_true, if_false, ne_eq, not_true_eq_false] at h
  obtain ⟨erased, -, h⟩ := result_bind_eq_ok.mp h
  obtain ⟨nested, -, h⟩ := result_bind_eq_ok.mp h
  split at h
  · cases h
    simp
  · split at h
    · cases h
      simp
    · cases h
      simp

end Verdict

/-! ## What a decision is taken from -/

theorem source_of_not_parameter {x e : DeclId} {y : Declaration} (h : y.isParameter = false) :
    c.source x e y = e := by
  unfold source
  split
  · simp [h]
  · rfl

theorem source_of_ne {x e : DeclId} {y : Declaration} (h : e ≠ x) : c.source x e y = e := by
  unfold source
  split
  · simp [h]
  · rfl

theorem source_cases {x e : DeclId} {y : Declaration} (hx : c.program.decl? x = some y) :
    c.source x e y = e ∨ c.program.StandsFor x (c.source x e y) := by
  unfold source
  split
  · next owner howner =>
    split
    · next h =>
      simp only [Bool.and_eq_true, decide_eq_true_eq] at h
      obtain ⟨⟨-, hpar⟩, hc⟩ := h
      cases hr : y.refined with
      | none => exact .inl rfl
      | some r => exact .inr ⟨y, owner, hx, hpar, howner, hc, hr⟩
    · exact .inl rfl
  · exact .inl rfl

/-! ## Settling -/

/-- Settles a declaration that another one inherits from. -/
def inheritWithin (c : Context) (fuel : Nat) (x : DeclId) : Decide Unit := do
  let _ ← c.lookup x
  if (← unboxed x).isNone then c.settleWithin fuel x x

/-- Notes the verdict for `x`, if there is one. -/
def conclude (x : DeclId) : Option Bool → Decide Unit
  | some b => modifyMarks (·.setUnboxed x b)
  | none => pure ()

theorem inheritWithin_follows {D F : DeclId → Prop} (hD : ∀ d, D d) (fuel : Nat) (x : DeclId) :
    Follows (Write c.toTarget D F) (c.inheritWithin fuel x) :=
  .lookup_bind fun _ _ => .bind (.unboxed x) fun _ =>
    .ite (fun _ => .settleWithin hD fuel x x) fun _ => .pure ()

theorem settleWithin_succ (fuel : Nat) (x e : DeclId) :
    c.settleWithin (fuel + 1) x e = (do
      let y ← c.lookup x
      let some type := y.type | return
      c.inheritUnderlying x (c.source x e y) type
      if (← unboxed x).isSome then return
      if (← get).pending.contains x then
        count fun s => { s with reentrant := s.reentrant + 1 }
        return
      let v ← deciding x (c.verdict (c.inheritWithin fuel) x (c.source x e y) type)
      conclude x v) := by
  have hc (v : Option Bool) : conclude x v = match v with
      | some b => modifyMarks (·.setUnboxed x b)
      | none => pure () := by
    cases v <;> rfl
  simp only [hc]
  rfl

/-- How what has a type is settled without a failure: it is decided already, or it is being decided,
or a verdict is given and noted. -/
theorem settleWithin_cases {fuel : Nat} {x e : DeclId} {y : Declaration} {type : TypeId}
    {s : Decisions} (hx : c.program.decl? x = some y) (ht : y.type = some type)
    (h : result (c.settleWithin (fuel + 1) x e) s = .ok ()) :
    let u := after (c.inheritUnderlying x (c.source x e y) type) s
    let verdict := deciding x (c.verdict (c.inheritWithin fuel) x (c.source x e y) type)
    let t := after (c.settleWithin (fuel + 1) x e) s
    (u.marks.unboxed x ≠ none ∧ t = u) ∨
      (u.marks.unboxed x = none ∧ x ∈ u.pending ∧ ∃ stats, t = { u with stats }) ∨
      (u.marks.unboxed x = none ∧ x ∉ u.pending ∧
        ∃ v, result verdict u = .ok v ∧ t = after (conclude x v) (after verdict u)) := by
  rw [settleWithin_succ, lookup_bind_of_decl? hx] at h ⊢
  simp only [ht] at h ⊢
  obtain ⟨⟨⟩, hu, h⟩ := result_bind_eq_ok.mp h
  rw [after_bind_of_ok hu]
  generalize after (c.inheritUnderlying x _ type) s = u at h ⊢
  rw [result_bind, result_unboxed, after_unboxed] at h
  rw [after_bind, result_unboxed, after_unboxed]
  dsimp only at h ⊢
  cases hb : u.marks.unboxed x with
  | some b =>
    rw [Option.isSome_some, if_pos rfl]
    exact .inl ⟨by simp, rfl⟩
  | none =>
    simp only [hb, Option.isSome_none, Bool.false_eq_true, if_false] at h ⊢
    rw [result_bind, result_get, after_get] at h
    rw [after_bind, result_get, after_get]
    dsimp only at h ⊢
    by_cases hc : u.pending.contains x = true
    · rw [if_pos hc]
      exact .inr (.inl ⟨trivial, by simpa using hc, _, rfl⟩)
    · rw [if_neg hc] at h ⊢
      obtain ⟨v, hv, -⟩ := result_bind_eq_ok.mp h
      rw [after_bind_of_ok hv]
      exact .inr (.inr ⟨trivial, by simpa using hc, v, hv, rfl⟩)

/-- What is not being decided already is decided once it is settled, unless there is no verdict. -/
theorem settleWithin_eq_ok {fuel : Nat} {x e : DeclId} {y : Declaration} {type : TypeId}
    {s : Decisions} (hx : c.program.decl? x = some y) (ht : y.type = some type)
    (hp : x ∉ s.pending) (h : result (c.settleWithin (fuel + 1) x e) s = .ok ()) :
    (after (c.settleWithin (fuel + 1) x e) s).marks.unboxed x ≠ none ∨
      ∃ s' : Decisions, s'.pending = x :: s.pending ∧
        result (c.verdict (c.inheritWithin fuel) x (c.source x e y) type) s' = .ok none := by
  have hfollows : Follows (Write c.toTarget ⊥ ⊥) (c.inheritUnderlying x (c.source x e y) type) :=
    .inheritUnderlying x (c.source x e y) type
  have hpend := (hfollows s).pending
  have hcases := settleWithin_cases hx ht h
  generalize after (c.inheritUnderlying x (c.source x e y) type) s = u at hcases hpend
  rcases hcases with ⟨hb, heq⟩ | ⟨-, hm, -⟩ | ⟨-, -, v, hv, heq⟩
  · rw [heq]
    exact .inl hb
  · rw [hpend] at hm
    exact absurd hm hp
  · cases v with
    | none => exact .inr ⟨{ u with pending := x :: u.pending }, by rw [← hpend], hv⟩
    | some b =>
      rw [heq, conclude, after_modifyMarks, Decisions.record, Marks.unboxed_setUnboxed, if_pos rfl]
      exact .inl (by simp)

section Decides
variable {fuel : Nat} {d top : DeclId} {x y : Declaration} {type type' : TypeId} {s : Decisions}

theorem inheritWithin_decides (hy : c.program.decl? top = some y) (ht : y.type = some type)
    (hp : y.isParameter = false) (hs : top ∉ s.pending)
    (h : result (c.inheritWithin (fuel + 1) top) s = .ok ()) :
    (after (c.inheritWithin (fuel + 1) top) s).marks.unboxed top ≠ none := by
  unfold inheritWithin at h ⊢
  rw [lookup_bind_of_decl? hy] at h ⊢
  rw [result_bind, result_unboxed, after_unboxed] at h
  rw [after_bind, result_unboxed, after_unboxed]
  dsimp only at h ⊢
  cases hb : s.marks.unboxed top with
  | some b => simp [hb]
  | none =>
    simp only [hb, Option.isNone_none, if_true] at h ⊢
    rcases settleWithin_eq_ok hy ht hs h with h | ⟨s', -, hv⟩
    · exact h
    · rw [source_of_not_parameter hp] at hv
      exact absurd rfl (verdict_of_own hy hp hv)

/-- The verdict for `d` is that for `top`, and there is one. -/
theorem settleWithin_decides (hx : c.program.decl? d = some x) (hy : c.program.decl? top = some y)
    (hxt : x.type = some type) (hyt : y.type = some type') (hxp : x.isParameter = false)
    (hyp : y.isParameter = false) (hne : top ≠ d) (hs : s.pending = [])
    (h : result (c.settleWithin (fuel + 2) d top) s = .ok ()) :
    (after (c.settleWithin (fuel + 2) d top) s).marks.unboxed d ≠ none := by
  rcases settleWithin_eq_ok hx hxt (by simp [hs]) h with h | ⟨s', hs', hv⟩
  · exact h
  · rw [source_of_not_parameter hxp] at hv
    have hp : top ∉ s'.pending := by simp [hs', hs, hne]
    rcases verdict_of_refined hx hne hv with ⟨-, h⟩ | ⟨hi, hv, -⟩
    · cases h
    · exact absurd hv.symm (inheritWithin_decides hy hyt hyp hp hi)

/-- The fuel is enough for a declaration and the one that it inherits from. -/
theorem settle_decides (hx : c.program.decl? d = some x) (hy : c.program.decl? top = some y)
    (hxt : x.type = some type) (hyt : y.type = some type') (hxp : x.isParameter = false)
    (hyp : y.isParameter = false) (hne : top ≠ d) (hs : s.pending = [])
    (h : result (c.settle d top) s = .ok ()) : (after (c.settle d top) s).marks.unboxed d ≠ none := by
  have hsize : d.index < c.program.decls.size := by
    simpa [Program.hasDecl] using Program.hasDecl_of_decl? hx
  obtain ⟨n, hn⟩ : ∃ n, c.program.decls.size = n + 1 := ⟨c.program.decls.size - 1, by omega⟩
  rw [settle, hn] at h ⊢
  exact settleWithin_decides hx hy hxt hyt hxp hyp hne hs h

end Decides

end Context

end Unbox
