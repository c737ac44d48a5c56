import Unbox.Program

/-!
# The graph of type references

A reference may point forward or even back to itself, so a walk over the references is given a
depth. `Program.typeDepth` is more than the longest path without a repetition, so a walk that ends
at all ends within it.

* `Program.nested` : a type and everything nested in it, outside first;
* `Program.anyNested` : a search among these that stops at the first hit, so that it also ends on a
  type that is nested in itself if a hit comes before the repetition;
* `Program.exactly` : equality of types, members of unions and intersections compared as sets.
-/

namespace Unbox.Program
variable (p : Program)

/-- More than the number of references on a path without a repetition. -/
def typeDepth : Nat := p.types.size + 1

/-- A type and the types nested in it to the given depth, outside first, from left to right. -/
def nestedTo : Nat → TypeId → List TypeId
  | 0, _ => []
  | depth + 1, t =>
    match p.form? t with
    | some form => t :: form.parts.flatMap (nestedTo depth)
    | none => []

def nested (t : TypeId) : List TypeId := p.nestedTo p.typeDepth t

section Search
variable {m : Type → Type} [Monad m]

/-- Some type among those nested in a type to the given depth passes the test. Types after the first
that does are not visited. -/
def anyNestedTo (test : TypeId → m Bool) : Nat → TypeId → m Bool
  | 0, _ => return false
  | depth + 1, t =>
    match p.form? t with
    | some form => do
      if ← test t then return true
      form.parts.anyM (anyNestedTo test depth)
    | none => return false

def anyNested (test : TypeId → m Bool) (t : TypeId) : m Bool := p.anyNestedTo test p.typeDepth t

theorem anyM_append [LawfulMonad m] (test : TypeId → m Bool) (as bs : List TypeId) :
    (as ++ bs).anyM test = as.anyM test >>= fun b => if b then pure true else bs.anyM test := by
  induction as with
  | nil => simp
  | cons a as ih =>
    simp only [List.cons_append, List.anyM_cons, ih, bind_assoc]
    congr 1
    funext b
    cases b <;> simp

theorem anyM_flatMap [LawfulMonad m] (test : TypeId → m Bool) (f : TypeId → List TypeId)
    (as : List TypeId) : (as.flatMap f).anyM test = as.anyM fun a => (f a).anyM test := by
  induction as with
  | nil => simp
  | cons a as ih =>
    simp only [List.flatMap_cons, anyM_append, ih, List.anyM_cons]

/-- The search finds what is listed. -/
theorem anyNestedTo_eq_anyM [LawfulMonad m] (test : TypeId → m Bool) (depth : Nat) (t : TypeId) :
    p.anyNestedTo test depth t = (p.nestedTo depth t).anyM test := by
  induction depth generalizing t with
  | zero => simp [anyNestedTo, nestedTo]
  | succ depth ih =>
    simp only [anyNestedTo, nestedTo]
    cases p.form? t with
    | none => simp
    | some form =>
      simp only [List.anyM_cons, anyM_flatMap, funext ih]

end Search

def isTypeParameterUse (t : TypeId) : Bool := (p.form? t).any TypeForm.isTypeParameter

/-- The type is a type parameter or mentions one. -/
def mentionsTypeParameter (t : TypeId) : Bool := Id.run (p.anyNested (pure ∘ p.isTypeParameterUse) t)

/-- Lists of one length in which every member of either equals a member of the other. -/
def sameMembers (eq : TypeId → TypeId → Bool) (as bs : List TypeId) : Bool :=
  as.length == bs.length && as.all (fun a => bs.any (eq a)) && bs.all fun b => as.any (eq · b)

def exactlyTo : Nat → TypeId → TypeId → Bool
  | 0, _, _ => false
  | depth + 1, a, b =>
    if a = b then (p.form? a).any fun form => !form.isError
    else match p.form? a, p.form? b with
      | some (.nominal d as), some (.nominal e bs) =>
        d == e && as.length == bs.length && (as.zip bs).all fun (x, y) => exactlyTo depth x y
      | some (.typeParameter d), some (.typeParameter e) => d == e
      | some (.union as), some (.union bs) => sameMembers (exactlyTo depth) as bs
      | some (.intersection as), some (.intersection bs) => sameMembers (exactlyTo depth) as bs
      | some .nothing, some .nothing => true
      | _, _ => false

/-- Equality of types. A type that could not be computed equals nothing. The depth is more than the
number of pairs of references on a path without a repetition. -/
def exactly (a b : TypeId) : Bool := p.exactlyTo (p.typeDepth * p.typeDepth) a b

end Unbox.Program
