import Unbox.Policy.Standard

/-!
# Answers about bounds

Whether a type parameter keeps a bound is asked again and again, and remembered once it is known.
What is remembered never changes an answer.

* `SameAnswers policy p b b'` : every type parameter gets the same answer from `b'` as from `b`;
* `Steady policy p question` : a question that cannot tell such memories apart and keeps all answers;
* `boundAnswer` : the answer about one type parameter;
* `Inquiry.steady` : a question that is put together from such questions, as all of them are, is steady.
-/

namespace Unbox

/-- Whatever is remembered, the answers are the same. -/
def SameAnswers (policy : Policy) (p : Program) (b b' : BoundMarks) : Prop :=
  ∀ d, (policy.keepsBound p d b').1 = (policy.keepsBound p d b).1

namespace SameAnswers
variable {policy : Policy} {p : Program} {a b c : BoundMarks}

theorem refl (b : BoundMarks) : SameAnswers policy p b b := fun _ => rfl

theorem symm (h : SameAnswers policy p a b) : SameAnswers policy p b a := fun d => (h d).symm

theorem trans (h : SameAnswers policy p a b) (h' : SameAnswers policy p b c) :
    SameAnswers policy p a c := fun d => (h' d).trans (h d)

end SameAnswers

/-- A question that cannot tell memories with the same answers apart and keeps all answers. -/
structure Steady {α : Type} (policy : Policy) (p : Program) (question : StateM BoundMarks α) :
    Prop where
  answer : ∀ b b', SameAnswers policy p b b' → (question b').1 = (question b).1
  keeps : ∀ b, SameAnswers policy p b (question b).2

namespace Steady
variable {α β : Type} {policy : Policy} {p : Program}

theorem pure (a : α) : Steady policy p (Pure.pure a) := ⟨fun _ _ _ => rfl, fun b => .refl b⟩

theorem bind {x : StateM BoundMarks α} {f : α → StateM BoundMarks β} (hx : Steady policy p x)
    (hf : ∀ a, Steady policy p (f a)) : Steady policy p (x >>= f) := by
  refine ⟨fun b b' h => ?_, fun b => (hx.keeps b).trans ((hf _).keeps _)⟩
  have hb : SameAnswers policy p (x b).2 (x b').2 := (hx.keeps b).symm.trans (h.trans (hx.keeps b'))
  have ha := hx.answer b b' h
  calc ((x >>= f) b').1 = (f (x b').1 (x b').2).1 := rfl
    _ = (f (x b).1 (x b').2).1 := by rw [ha]
    _ = (f (x b).1 (x b).2).1 := (hf _).answer _ _ hb

end Steady

/-! ## The bounds of a type parameter -/

section Bounds
variable {provisional : Bool} {erases : TypeId → Bool} {p : Program} {d : DeclId} {b : BoundMarks}

/-- The answer about `d`: what is remembered, or else what the bounds give. -/
def boundAnswer (erases : TypeId → Bool) (p : Program) (b : BoundMarks) (d : DeclId) : Bool :=
  (p.decl? d >>= Declaration.bounds?).any fun bounds =>
    (b.get d).getD (bounds.any fun t => !erases t)

theorem recallBound_of_none (h : p.decl? d >>= Declaration.bounds? = none) :
    recallBound provisional (fun t => return erases t) p d b = (false, b) := by
  unfold recallBound
  rw [h]
  rfl

theorem recallBound_of_known {bounds : List TypeId} {known : Bool}
    (h : p.decl? d >>= Declaration.bounds? = some bounds) (hb : b.get d = some known) :
    recallBound provisional (fun t => return erases t) p d b = (known, b) := by
  have get_bind (f : BoundMarks → StateM BoundMarks Bool) : (get >>= f) b = f b b := rfl
  unfold recallBound
  rw [h]
  dsimp only
  rw [get_bind, hb]
  rfl

theorem recallBound_of_unknown {bounds : List TypeId}
    (h : p.decl? d >>= Declaration.bounds? = some bounds) (hb : b.get d = none) :
    recallBound provisional (fun t => return erases t) p d b =
      (bounds.any fun t => !erases t, b.set d (some (bounds.any fun t => !erases t))) := by
  have get_bind (f : BoundMarks → StateM BoundMarks Bool) : (get >>= f) b = f b b := rfl
  have examined : (bounds.anyM fun t => do return !(← (return erases t : StateM BoundMarks Bool))) =
      return bounds.any fun t => !erases t := List.anyM_pure
  unfold recallBound
  rw [h]
  dsimp only
  rw [get_bind, hb]
  dsimp only
  rw [examined]
  exact congrArg (Prod.mk _) (b.set_set d _ _)

/-- What is stored while the bounds are examined is never seen. -/
theorem recallBound_provisional (provisional' : Bool) :
    recallBound provisional' (fun t => return erases t) p d b =
      recallBound provisional (fun t => return erases t) p d b := by
  cases h : p.decl? d >>= Declaration.bounds? with
  | none => rw [recallBound_of_none h, recallBound_of_none h]
  | some bounds =>
    cases hb : b.get d with
    | some known => rw [recallBound_of_known h hb, recallBound_of_known h hb]
    | none => rw [recallBound_of_unknown h hb, recallBound_of_unknown h hb]

/-- To examine the bounds is no question. -/
theorem asked_recallBound :
    (recallBound provisional (fun t => return erases t) p d b).2.asked = b.asked := by
  cases h : p.decl? d >>= Declaration.bounds? with
  | none => rw [recallBound_of_none h]
  | some bounds =>
    cases hb : b.get d with
    | some known => rw [recallBound_of_known h hb]
    | none =>
      rw [recallBound_of_unknown h hb]
      rfl

/-- To ask about a type parameter gives its answer, remembers it and changes nothing else. -/
theorem recallBound_spec :
    (recallBound provisional (fun t => return erases t) p d b).1 = boundAnswer erases p b d ∧
      ∀ e, (recallBound provisional (fun t => return erases t) p d b).2.get e =
        if e = d ∧ (p.decl? d >>= Declaration.bounds?).isSome = true then
          some (boundAnswer erases p b d)
        else b.get e := by
  unfold boundAnswer
  cases h : p.decl? d >>= Declaration.bounds? with
  | none =>
    rw [recallBound_of_none h]
    simp
  | some bounds =>
    cases hb : b.get d with
    | some known =>
      rw [recallBound_of_known h hb]
      refine ⟨by simp, fun e => ?_⟩
      by_cases hed : e = d
      · simp [hed, hb]
      · simp [hed]
    | none =>
      rw [recallBound_of_unknown h hb]
      refine ⟨by simp, fun e => ?_⟩
      by_cases hed : e = d
      · simp [hed, BoundMarks.get_set]
      · simp [hed, BoundMarks.get_set]

theorem keepsBoundOf_fst :
    (keepsBoundOf (fun t => return erases t) p d b).1 = boundAnswer erases p b d :=
  recallBound_spec.1

theorem get_keepsBoundOf (e : DeclId) :
    (keepsBoundOf (fun t => return erases t) p d b).2.get e =
      if e = d ∧ (p.decl? d >>= Declaration.bounds?).isSome = true then
        some (boundAnswer erases p b d)
      else b.get e :=
  recallBound_spec.2 e

theorem asked_keepsBoundOf :
    (keepsBoundOf (fun t => return erases t) p d b).2.asked =
      (d, boundAnswer erases p b d) :: b.asked := by
  have noted : (keepsBoundOf (fun t => return erases t) p d b).2.asked =
      (d, (recallBound false (fun t => return erases t) p d b).1) ::
        (recallBound false (fun t => return erases t) p d b).2.asked := rfl
  rw [noted, recallBound_spec.1, asked_recallBound]

/-- To ask about one type parameter changes no answer, about that one or another. -/
theorem keepsBoundOf_stable (e : DeclId) :
    (keepsBoundOf (fun t => return erases t) p e
      (keepsBoundOf (fun t => return erases t) p d b).2).1 =
      (keepsBoundOf (fun t => return erases t) p e b).1 := by
  rw [keepsBoundOf_fst, keepsBoundOf_fst]
  simp only [boundAnswer, get_keepsBoundOf]
  by_cases hed : e = d
  · subst hed
    cases p.decl? e >>= Declaration.bounds? with
    | none => rfl
    | some bounds => simp
  · simp [hed]

end Bounds

theorem Steady.keepsBound {policy : Policy} {p : Program} (d : DeclId) :
    Steady policy p (policy.keepsBound p d) :=
  ⟨fun _ _ h => h d, fun _ e => keepsBoundOf_stable e⟩

/-! ## Questions put together -/

namespace Inquiry
variable {policy : Policy} {p : Program}

theorem anyNested {erases : TypeId → Bool} {q : Program} {test : TypeId → StateM BoundMarks Bool}
    (h : ∀ a, Inquiry erases p (test a)) (a : TypeId) : Inquiry erases p (q.anyNested test a) := by
  rw [Program.anyNested, Program.anyNestedTo_eq_anyM]
  exact anyM h

theorem steady {α : Type} {question : StateM BoundMarks α}
    (h : Inquiry (policy.erasesToObject p) p question) : Steady policy p question := by
  induction h with
  | pure a => exact .pure a
  | keepsBound d => exact .keepsBound d
  | bind _ _ hx hf => exact .bind hx hf

end Inquiry

end Unbox
