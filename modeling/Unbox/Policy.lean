import Unbox.Marks
import Unbox.Program

/-!
# Policies: what types look like on the target

Which types have a primitive slot, which collapse to the top type and when a method returns a boxed
nothing belong to the target, not to the language. A `Policy` answers these questions about a
program; the analyses ask it and nothing else.

* `Erased` : what a type looks like once lowered;
* `Program.Recalls` : a question about the bounds of type parameters keeps the answers there are;
* `Inquiry` : a question that is put together from questions about single type parameters;
* `Policy` : the questions;
* `Policy.keepsBound` : whether a bound of a type parameter stays, asked once and then remembered.
-/

namespace Unbox

/-- What a type looks like on the target. -/
inductive Erased where
  /-- The primitive slot of a basic class. -/
  | primitive (class_ : DeclId)
  /-- A reference to a class or interface. -/
  | reference (class_ : DeclId)
  /-- The top type. -/
  | object
deriving DecidableEq

/-- An optional or bounded use of a primitive is a reference to its class. -/
def Erased.boxed : Erased → Erased
  | primitive c => reference c
  | e => e

/-! ## Questions about bounds -/

namespace Program
variable {α β : Type} {p : Program}

/-- The later answers agree with all earlier ones, and only type parameters got new ones. -/
def Remembers (p : Program) (earlier later : BoundMarks) : Prop :=
  ∀ d, later.get d = earlier.get d ∨
    earlier.get d = none ∧ (later.get d).isSome ∧ (p.decl? d).any Declaration.isTypeParameter

theorem Remembers.refl (b : BoundMarks) : p.Remembers b b := fun _ => .inl rfl

theorem Remembers.trans {a b c : BoundMarks} (hab : p.Remembers a b) (hbc : p.Remembers b c) :
    p.Remembers a c := by
  intro d
  rcases hab d with hab | ⟨ha, hb, hd⟩
  · rw [← hab]
    exact hbc d
  · rcases hbc d with hbc | ⟨hb', -⟩
    · exact .inr ⟨ha, hbc ▸ hb, hd⟩
    · rw [hb'] at hb
      cases hb

/-- A question that keeps the answers there are and answers only for type parameters. -/
def Recalls (p : Program) (question : StateM BoundMarks α) : Prop :=
  ∀ b, p.Remembers b (question b).2

namespace Recalls

theorem pure (a : α) : p.Recalls (Pure.pure a) := fun b => .refl b

theorem bind {x : StateM BoundMarks α} {f : α → StateM BoundMarks β} (hx : p.Recalls x)
    (hf : ∀ a, p.Recalls (f a)) : p.Recalls (x >>= f) :=
  fun b => (hx b).trans (hf (x b).1 (x b).2)

theorem anyM {test : α → StateM BoundMarks Bool} {as : List α} (h : ∀ a, p.Recalls (test a)) :
    p.Recalls (as.anyM test) := by
  induction as with
  | nil => exact pure false
  | cons a as ih =>
    rw [List.anyM_cons]
    refine bind (h a) fun b => ?_
    cases b with
    | true => exact pure true
    | false => exact ih

end Recalls

end Program

/-- The answer that is remembered for the type parameter, or else whether some bound does not erase to
the top type, which is remembered then. Anything that is no type parameter keeps no bound. -/
def recallBound (provisional : Bool) (erases : TypeId → StateM BoundMarks Bool) (p : Program)
    (d : DeclId) : StateM BoundMarks Bool := do
  let some bounds := p.decl? d >>= Declaration.bounds? | return false
  match (← get).get d with
  | some known => return known
  | none =>
    -- the answer as long as the bounds, which may mention the type parameter, are examined
    modify (·.set d (some provisional))
    let kept ← bounds.anyM fun t => return !(← erases t)
    modify (·.set d (some kept))
    return kept

/-- Asks whether some bound of the type parameter does not erase to the top type. -/
def keepsBoundOf (erases : TypeId → StateM BoundMarks Bool) (p : Program) (d : DeclId) :
    StateM BoundMarks Bool := do
  let kept ← recallBound false erases p d
  modify (·.note d kept)
  return kept

theorem recallBound_recalls {provisional : Bool} {erases : TypeId → StateM BoundMarks Bool}
    {p : Program} (h : ∀ t, p.Recalls (erases t)) (d : DeclId) :
    p.Recalls (recallBound provisional erases p d) := by
  unfold recallBound
  cases hb : p.decl? d >>= Declaration.bounds? with
  | none => exact .pure false
  | some bounds =>
    intro b
    have get_bind (f : BoundMarks → StateM BoundMarks Bool) : (get >>= f) b = f b b := rfl
    dsimp only
    rw [get_bind]
    cases hd : b.get d with
    | some known => exact .refl b
    | none =>
      have examined : p.Recalls (bounds.anyM fun t => do return !(← erases t)) :=
        .anyM fun t => .bind (h t) fun _ => .pure _
      intro e
      have he := examined (b.set d (some provisional)) e
      rw [BoundMarks.get_set] at he
      obtain ⟨x, hx, hxb⟩ := Option.bind_eq_some_iff.mp hb
      change BoundMarks.get (BoundMarks.set _ d (some _)) e = _ ∨
        _ ∧ (BoundMarks.get (BoundMarks.set _ d (some _)) e).isSome ∧ _
      rw [BoundMarks.get_set]
      by_cases hed : e = d
      · subst hed
        rw [if_pos rfl, hx]
        exact .inr ⟨hd, rfl, Declaration.isTypeParameter_of_bounds? hxb⟩
      · rw [if_neg hed] at he ⊢
        exact he

theorem keepsBoundOf_recalls {erases : TypeId → StateM BoundMarks Bool} {p : Program}
    (h : ∀ t, p.Recalls (erases t)) (d : DeclId) : p.Recalls (keepsBoundOf erases p d) :=
  .bind (recallBound_recalls h d) fun _ _ => .refl _

/-- A question that is put together from questions about single type parameters. -/
inductive Inquiry (erases : TypeId → Bool) (p : Program) : {α : Type} → StateM BoundMarks α → Prop where
  | pure {α : Type} (a : α) : Inquiry erases p (Pure.pure a)
  | keepsBound (d : DeclId) : Inquiry erases p (keepsBoundOf (fun t => return erases t) p d)
  | bind {α β : Type} {x : StateM BoundMarks α} {f : α → StateM BoundMarks β}
    (hx : Inquiry erases p x) (hf : ∀ a, Inquiry erases p (f a)) : Inquiry erases p (x >>= f)

namespace Inquiry
variable {α : Type} {erases : TypeId → Bool} {p : Program} {question : StateM BoundMarks α}

theorem anyM {test : α → StateM BoundMarks Bool} {as : List α}
    (h : ∀ a, Inquiry erases p (test a)) : Inquiry erases p (as.anyM test) := by
  induction as with
  | nil => exact pure false
  | cons a as ih =>
    rw [List.anyM_cons]
    refine bind (h a) fun b => ?_
    cases b with
    | true => exact pure true
    | false => exact ih

theorem recalls (h : Inquiry erases p question) : p.Recalls question := by
  induction h with
  | pure a => exact .pure a
  | keepsBound d => exact keepsBoundOf_recalls (fun _ => .pure _) d
  | bind _ _ hx hf => exact .bind hx hf

end Inquiry

structure Policy where
  /-- One of the basic classes, without type arguments. -/
  isBasic : Program → TypeId → Bool
  isNull : Program → TypeId → Bool
  isObject : Program → TypeId → Bool
  /-- Exactly the top type of the language. -/
  isAnything : Program → TypeId → Bool
  isCallable : Program → TypeId → Bool
  /-- A union of the null type with one other case. -/
  isOptional : Program → TypeId → Bool
  isIterableRoot : Program → TypeId → Bool
  /-- A union or intersection, or one nested in a type argument. -/
  hasErasure : Program → TypeId → Bool
  erasesToObject : Program → TypeId → Bool
  /-- A generic type used without type arguments. -/
  isRaw : Program → TypeId → Bool
  /-- A declaration whose type is lowered differently from one that it refines. -/
  isWidening : Program → DeclId → Bool
  /-- A type argument that erases to the top type where its type parameter keeps a bound. -/
  substitutesBound : Program → TypeId → StateM BoundMarks Bool
  /-- What a type looks like; nothing if the bounds of type parameters lead back to it, so that it
  never shows. -/
  erased : Program → TypeId → Option Erased
  /-- A void method that has to return a boxed null. -/
  boxesVoid : Program → DeclId → Bool
  /-- A functional parameter that is compiled to a method. -/
  createsMethod : Program → DeclId → Bool
  isTrue : Program → DeclId → Bool
  isFalse : Program → DeclId → Bool
  recalls (p : Program) (t : TypeId) : p.Recalls (substitutesBound p t)

namespace Policy
variable (policy : Policy) (p : Program)

/-- Some bound of the type parameter stays; the answer is remembered. -/
def keepsBound (d : DeclId) : StateM BoundMarks Bool :=
  keepsBoundOf (fun t => return policy.erasesToObject p t) p d

theorem keepsBound_recalls (d : DeclId) : p.Recalls (policy.keepsBound p d) :=
  keepsBoundOf_recalls (fun _ => .pure _) d

def isVoid (t : Option TypeId) : Bool := t.any (policy.isAnything p)

/-- A void method that is compiled without a result. -/
def isUnboxedVoid (d : DeclId) : Bool :=
  (p.decl? d).any fun x => x.isMethod && policy.isVoid p x.type && !policy.boxesVoid p d

end Policy

/-- A program and what its types look like once compiled. -/
structure Target where
  program : Program
  policy : Policy

end Unbox
